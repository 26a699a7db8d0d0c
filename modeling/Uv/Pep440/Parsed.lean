import Uv.Library.Result
import Uv.Pep440.ParserCorrect

namespace Uv.Pep440

open Library Version

/-!
# What the parser promises about a version

A version that was read from text has no "min" or "max" mark and no "max" local
part, and its numbers stay below a bound, because the parser refuses the largest
64-bit number.  A version that was read before a wildcard has neither suffixes
nor a local part.
-/

/-- A version that can be written down, with its numbers below a bound. -/
structure Version.Parsed (bound : Nat) (version : Version) : Prop where
  epoch : version.epoch.toNat < bound
  release : ∀ number ∈ version.release, number.toNat < bound
  pre : ∀ pre, version.pre = some pre -> pre.number.toNat < bound
  post : ∀ number, version.post = some number -> number.toNat < bound
  dev : ∀ number, version.dev = some number -> number.toNat < bound
  localVersion : ∃ segments, version.localVersion = .segments segments
  min : version.min = none
  max : version.max = none

/-- A version that consists of its epoch and its release. -/
structure Version.Bare (version : Version) : Prop where
  pre : version.pre = none
  post : version.post = none
  dev : version.dev = none
  localVersion : version.localVersion = .empty

open Grammar in
lemma Version.fromStr_parsed {text : String} {version : Version}
    (accepted : Version.fromStr text = .ok version) : version.Parsed Components.limit := by
  rcases fromStr_denotes accepted with ⟨caps, _, fits, denotes⟩
  rcases fits with ⟨epochFits, releaseFits, preFits, postFits, devFits⟩
  have spelled := denotes.localVersion
  rw [record_localVersion] at spelled
  constructor
  · rw [<- record_epoch, denotes.epoch]
    exact epochFits
  · intro number mem
    apply releaseFits
    rw [<- denotes.release, record_release]
    exact List.mem_map_of_mem mem
  · intro pre found
    apply preFits pre.kind
    rw [<- denotes.pre, record_pre, found]
    rfl
  · intro number found
    apply postFits
    rw [<- denotes.post, record_post, found]
    rfl
  · intro number found
    apply devFits
    rw [<- denotes.dev, record_dev, found]
    rfl
  · rcases spelled with ⟨segments, same, _⟩
    exact ⟨segments, same⟩
  · rw [<- record_min]
    exact denotes.min
  · rw [<- record_max]
    exact denotes.max

/-! ## Versions before a wildcard -/

namespace Parser

open Scan

/-- Only an epoch and release numbers have been read, none of them too big. -/
structure Bare (parser : Parser) : Prop where
  epoch : parser.epoch.toNat < Grammar.Components.limit
  release : ∀ number ∈ parser.release, number.toNat < Grammar.Components.limit
  pre : parser.pre = none
  post : parser.post = none
  dev : parser.dev = none
  localSegments : parser.localSegments = []
  wildcard : parser.wildcard = false

lemma new_bare (input : List UInt8) : (new input).Bare where
  epoch := Nat.zero_lt_of_lt (show 0 < 2 ^ 64 - 1 by decide)
  release := fun _ mem => absurd mem (List.not_mem_nil)
  pre := rfl
  post := rfl
  dev := rfl
  localSegments := rfl
  wildcard := rfl

lemma Bare.moveTo {parser : Parser} (bare : parser.Bare) (rest : List UInt8) :
    (moveTo parser rest).Bare where
  epoch := bare.epoch
  release := bare.release
  pre := bare.pre
  post := bare.post
  dev := bare.dev
  localSegments := bare.localSegments
  wildcard := bare.wildcard

lemma Bare.pushNumber {parser : Parser} (bare : parser.Bare) {number : UInt64}
    (fits : number.toNat < Grammar.Components.limit) :
    Bare { parser with release := parser.release ++ [number] } where
  epoch := bare.epoch
  release := by
    intro mem found
    rcases List.mem_append.mp found with earlier | last
    · exact bare.release mem earlier
    · rw [List.mem_singleton.mp last]
      exact fits
  pre := bare.pre
  post := bare.post
  dev := bare.dev
  localSegments := bare.localSegments
  wildcard := bare.wildcard

lemma liftError_eq_ok {α : Type} {first : Except ErrorKind α} {value : α}
    (done : liftError first = .ok value) : first = .ok value := by
  cases first with
  | error err => cases done
  | ok found =>
    cases done
    rfl

variable {parser parser' : Parser}

/-- The text that comes next is read by moving forward. -/
lemma bumpIf_moveTo {string : String} (found : parser.bumpIf string = some parser') :
    ∃ rest, parser' = moveTo parser rest := by
  unfold bumpIf at found
  split at found
  · cases found
  · split at found
    · cases found
      exact ⟨_, rfl⟩
    · cases found

lemma parseNumber_fits {number : Option UInt64}
    (done : parser.parseNumber = .ok (number, parser')) :
    (∃ rest, parser' = moveTo parser rest) /\
      ∀ n, number = some n -> n.toNat < Grammar.Components.limit := by
  unfold parseNumber at done
  rw [bumpWhile_eq] at done
  simp only at done
  split at done
  · cases done
    exact ⟨⟨_, rfl⟩, nofun⟩
  · rcases of_bind_ok done with ⟨n, _, checked⟩
    split at checked
    · cases checked
    next allowed =>
      cases checked
      refine ⟨⟨_, rfl⟩, fun found same => ?_⟩
      rw [Option.some.inj same] at allowed
      have below := found.toNat_lt
      have different : found.toNat ≠ u64Max.toNat := fun same => allowed (UInt64.toNat_inj.mp same)
      have largest : u64Max.toNat = 2 ^ 64 - 1 := rfl
      unfold Grammar.Components.limit
      omega

lemma parseEpochAndInitialRelease_bare (bare : parser.Bare)
    (done : parser.parseEpochAndInitialRelease = .ok parser') : parser'.Bare := by
  unfold parseEpochAndInitialRelease at done
  rcases of_bind_ok done with ⟨⟨first, afterFirst⟩, readFirst, continued⟩
  rcases parseNumber_fits readFirst with ⟨⟨rest, moved⟩, firstFits⟩
  have bareAfter : afterFirst.Bare := moved ▸ bare.moveTo rest
  cases first with
  | none => cases continued
  | some firstNumber =>
    simp only at continued
    split at continued
    · cases continued
      exact bareAfter.pushNumber (firstFits firstNumber rfl)
    next marked marking =>
      rcases bumpIf_moveTo marking with ⟨markedRest, markedEq⟩
      have bareMarked : Bare { marked with epoch := firstNumber } := by
        rw [markedEq]
        exact
          { epoch := firstFits firstNumber rfl
            release := bareAfter.release
            pre := bareAfter.pre
            post := bareAfter.post
            dev := bareAfter.dev
            localSegments := bareAfter.localSegments
            wildcard := bareAfter.wildcard }
      rcases of_bind_ok continued with ⟨⟨second, afterSecond⟩, readSecond, finished⟩
      rcases parseNumber_fits readSecond with ⟨⟨rest', moved'⟩, secondFits⟩
      cases second with
      | none => cases finished
      | some n =>
        cases finished
        exact (moved' ▸ bareMarked.moveTo rest' : afterSecond.Bare).pushNumber
          (secondFits n rfl)

lemma restOfReleaseLoop_bare (rounds : Nat) :
    ∀ {parser parser' : Parser}, parser.Bare ->
      restOfReleaseLoop rounds parser = .ok parser' -> parser'.Bare := by
  induction rounds with
  | zero =>
    intro parser parser' bare done
    cases done
    exact bare
  | succ rounds ih =>
    intro parser parser' bare done
    rw [restOfReleaseLoop] at done
    split at done
    · cases done
      exact bare
    next dotted dot =>
      rcases bumpIf_moveTo dot with ⟨rest, moved⟩
      rcases of_bind_ok done with ⟨⟨number, after⟩, read, continued⟩
      rcases parseNumber_fits read with ⟨⟨rest', moved'⟩, fits⟩
      have bareAfter : after.Bare := by
        rw [moved', moved]
        exact (bare.moveTo rest).moveTo rest'
      cases number with
      | none =>
        cases continued
        exact bare
      | some n => exact ih (bareAfter.pushNumber (fits n rfl)) continued

variable {pattern : VersionPattern}

/-- A pattern made of an epoch and release numbers. -/
lemma intoPattern_bare {parser : Parser} {flag : Bool}
    (bare : parser.Bare) (done : { parser with wildcard := flag }.intoPattern = .ok pattern) :
    pattern.version.Parsed Grammar.Components.limit /\ pattern.version.Bare := by
  unfold intoPattern at done
  split at done
  · cases done
  · cases done
    constructor
    · constructor <;> simp only [<- record_epoch, <- record_release,
        <- record_pre, <- record_post, <- record_dev,
        <- record_localVersion, <- record_min, <- record_max,
        record_withLocal, record_withDev, record_withPost,
        record_withPre, record_withEpoch, record_new]
      · exact bare.epoch
      · exact bare.release
      · intro found same
        rw [bare.pre] at same
        cases same
      · intro found same
        rw [bare.post] at same
        cases same
      · intro found same
        rw [bare.dev] at same
        cases same
      · exact ⟨_, rfl⟩
    · constructor <;> simp only [<- record_pre, <- record_post,
        <- record_dev, <- record_localVersion, record_withLocal,
        record_withDev, record_withPost, record_withPre]
      · exact bare.pre
      · exact bare.post
      · exact bare.dev
      · rw [bare.localSegments]
        rfl

/-! ## The suffix stages leave the wildcard flag alone -/

lemma readSuffix_wildcard {κ : Type} {spellings : List (String × κ)}
    {fill : κ -> UInt64 -> Parser -> Parser} (done : readSuffix spellings fill parser = .ok parser')
    (keeps : ∀ kind n parser, (fill kind n parser).wildcard = parser.wildcard) :
    parser'.wildcard = parser.wildcard := by
  rw [readSuffix, skipSeparator_eq, bumpIfStringSet_eq] at done
  generalize findSpelling spellings (moveTo parser (afterSeparator parser.unread)).unread =
    spelled at done
  cases spelled with
  | none =>
    cases done
    rfl
  | some found =>
    rcases of_bind_ok done with ⟨⟨number, after⟩, read, filled⟩
    rcases (parseNumber_fits read).1 with ⟨rest, moved⟩
    cases filled
    rw [keeps, moved, skipSeparator_eq]
    rfl

lemma parsePre_wildcard (done : parser.parsePre = .ok parser') :
    parser'.wildcard = parser.wildcard := by
  rw [parsePre_eq] at done
  exact readSuffix_wildcard done fun _ _ _ => rfl

lemma parsePost_wildcard (done : parser.parsePost = .ok parser') :
    parser'.wildcard = parser.wildcard := by
  have word : ∀ {result}, parser.parsePostWord = .ok result ->
      result.wildcard = parser.wildcard := by
    intro result done
    rw [parsePostWord_eq] at done
    exact readSuffix_wildcard done fun _ _ _ => rfl
  unfold parsePost at done
  split at done
  · exact word done
  next dashed dash =>
    rcases bumpIf_moveTo dash with ⟨rest, moved⟩
    rcases of_bind_ok done with ⟨⟨number, after⟩, read, continued⟩
    rcases (parseNumber_fits read).1 with ⟨rest', moved'⟩
    cases number with
    | none => exact word continued
    | some n =>
      cases continued
      rw [moved', moved]
      rfl

lemma parseDev_wildcard (done : parser.parseDev = .ok parser') :
    parser'.wildcard = parser.wildcard := by
  rw [parseDev_eq] at done
  exact readSuffix_wildcard done fun _ _ _ => rfl

lemma localLoop_wildcard (rounds : Nat) :
    ∀ {precursor : UInt8} {parser parser' : Parser},
      localLoop rounds precursor parser = .ok parser' -> parser'.wildcard = parser.wildcard := by
  induction rounds with
  | zero =>
    intro precursor parser parser' done
    cases done
  | succ rounds ih =>
    intro precursor parser parser' done
    rw [localLoop, bumpWhile_eq] at done
    simp only at done
    split at done
    · cases done
    · split at done
      · cases done
        rfl
      next byte after separated =>
        have kept := ih done
        unfold bumpIfSeparator at separated
        split at separated
        · cases separated
        · split at separated
          · cases separated
            exact kept
          · cases separated

lemma parseLocal_wildcard (done : parser.parseLocal = .ok parser') :
    parser'.wildcard = parser.wildcard := by
  unfold parseLocal at done
  split at done
  · cases done
    rfl
  next after plus =>
    rcases bumpIf_moveTo plus with ⟨rest, moved⟩
    rw [localLoop_wildcard _ done, moved]
    rfl

/-- A parser that is not at a wildcard makes a pattern without one. -/
lemma suffixes_wildcard {bytes : List UInt8} {parser : Parser} {pattern : VersionPattern}
    (done : (do
      let parser <- liftError parser.parsePre
      let parser <- liftError parser.parsePost
      let parser <- liftError parser.parseDev
      let parser <- liftError parser.parseLocal
      let parser := (parser.bumpWhile isAsciiWhitespace).2
      if !parser.isDone then
        .error (.version (.unexpectedEnd
          (bytes.take (bytes.length - parser.unread.length)) parser.unread))
      else parser.intoPattern) = .ok pattern) : pattern.wildcard = parser.wildcard := by
  rcases of_bind_ok done with ⟨afterPre, readPre, done⟩
  rcases of_bind_ok done with ⟨afterPost, readPost, done⟩
  rcases of_bind_ok done with ⟨afterDev, readDev, done⟩
  rcases of_bind_ok done with ⟨afterLocal, readLocal, done⟩
  rw [<- parsePre_wildcard (liftError_eq_ok readPre), <- parsePost_wildcard (liftError_eq_ok readPost),
    <- parseDev_wildcard (liftError_eq_ok readDev), <- parseLocal_wildcard (liftError_eq_ok readLocal)]
  simp only [bumpWhile_eq] at done
  split at done
  · cases done
  · unfold intoPattern at done
    split at done
    · cases done
    · cases done
      rfl

lemma parseSlow_wildcard {bytes : List UInt8}
    (done : parseSlow bytes = .ok pattern) (wild : pattern.wildcard) :
    pattern.version.Parsed Grammar.Components.limit /\ pattern.version.Bare := by
  rw [parseSlow, bumpWhile_eq] at done
  rcases of_bind_ok done with ⟨initial, readInitial, afterInitial⟩
  rcases of_bind_ok afterInitial with ⟨released, readRest, afterRest⟩
  rcases of_bind_ok afterRest with ⟨⟨wildcard, parser⟩, readWildcard, afterWildcard⟩
  have bareStart : ((moveTo (new bytes) ((new bytes).unread.dropWhile isAsciiWhitespace)).bumpIf
      "v" |>.getD (moveTo (new bytes) ((new bytes).unread.dropWhile isAsciiWhitespace))).Bare := by
    have bare := (new_bare bytes).moveTo ((new bytes).unread.dropWhile isAsciiWhitespace)
    cases found : (moveTo (new bytes) ((new bytes).unread.dropWhile isAsciiWhitespace)).bumpIf
        "v" with
    | none => exact bare
    | some after =>
      rcases bumpIf_moveTo found with ⟨rest, moved⟩
      rw [Option.getD_some, moved]
      exact bare.moveTo rest
  have bareReleased : released.Bare :=
    restOfReleaseLoop_bare _ (parseEpochAndInitialRelease_bare bareStart
      (liftError_eq_ok readInitial)) (liftError_eq_ok readRest)
  unfold parseWildcard at readWildcard
  split at readWildcard
  · cases readWildcard
    have kept := @suffixes_wildcard bytes released pattern afterWildcard
    rw [kept, bareReleased.wildcard] at wild
    cases wild
  next after marked =>
    rcases bumpIf_moveTo marked with ⟨rest, moved⟩
    split at readWildcard
    · cases readWildcard
    · cases readWildcard
      rw [moved] at afterWildcard
      exact intoPattern_bare (bareReleased.moveTo rest) afterWildcard

end Parser

/-- The version of an accepted pattern is one that can be written down, and it
has no suffix when a wildcard follows it. -/
lemma VersionPattern.fromStr_parsed {text : String} {pattern : VersionPattern}
    (accepted : VersionPattern.fromStr text = .ok pattern) :
    pattern.version.Parsed Grammar.Components.limit /\
      (pattern.wildcard -> pattern.version.Bare) := by
  cases wild : pattern.wildcard with
  | false =>
    refine ⟨@Version.fromStr_parsed text pattern.version ?_, nofun⟩
    rw [VersionPattern.fromStr] at accepted
    rw [Version.fromStr, Parser.parse, accepted]
    simp only [wild, Bool.false_eq_true, if_false]
  | true =>
    rw [VersionPattern.fromStr, Parser.parsePattern] at accepted
    split at accepted
    · cases accepted
      cases wild
    · rcases Parser.parseSlow_wildcard accepted wild with ⟨parsed, bare⟩
      exact ⟨parsed, fun _ => bare⟩

end Uv.Pep440
