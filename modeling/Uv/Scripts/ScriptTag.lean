import Uv.Library.ByteText

namespace Uv.Scripts

open Library List
open Library.ByteText

/-!
# The metadata block of a script

`ScriptTag::parse` looks for the text `# /// script`, reads the comment lines behind it
and takes the last `# ///` of that run as the end of the block.  The lines behind the
block are read once more, for a second block.

The grammar of a block is stated on the lines of the script, without the search and the
scan backwards.  Contents are bytes, since the pragma is searched in bytes and only what
is kept is checked to be UTF-8.
-/

abbrev Line := List UInt8

inductive Pep723Error where
  | unclosedBlock
  | unclosedBlockTrailingContent
  | duplicateBlock
  | utf8
  deriving DecidableEq

structure ScriptTag where
  prelude : List UInt8
  metadata : List UInt8
  postlude : List UInt8
  deriving DecidableEq

def hash : UInt8 := 35
def space : UInt8 := 32

/-- `///` -/
def slashes : Line := [47, 47, 47]

/-- `# ///` -/
def closing : Line := [hash, space] ++ slashes

/-- `script` -/
def scriptType : Line := [115, 99, 114, 105, 112, 116]

/-- The start of a line that opens a block of some type: `# ///` and a blank. -/
def typed : Line := closing ++ [space]

/-- `# /// script` -/
def opening : Line := typed ++ scriptType

/-- A line that may stand in a block, with its comment sign removed. -/
def content : Line -> Option Line
  | [] => none
  | first :: rest =>
    if first = hash then
      match rest with
      | [] => some []
      | second :: rest => if second = space then some rest else none
    else none

/-- The run of comment lines behind the opening pragma. -/
def commentRun : List Line -> List Line
  | [] => []
  | line :: lines =>
    match content line with
    | some text => text :: commentRun lines
    | none => []

/-- The scan for the last `///`, from the back of the run.  A line that only starts with
it is noted for the error. -/
def closingIndex : List (Line × Nat) -> Bool -> Except Pep723Error Nat
  | [], hasTrailingContent =>
    .error (if hasTrailingContent then .unclosedBlockTrailingContent else .unclosedBlock)
  | (line, index) :: rest, hasTrailingContent =>
    if line = slashes then .ok (index + 1)
    else closingIndex rest (hasTrailingContent || slashes.isPrefixOf line)

/-- `u8::is_ascii_alphanumeric` or a hyphen. -/
def isTypeByte (byte : UInt8) : Bool :=
  isAsciiAlphanumeric byte || byte = 45

/-- The type of the block that a line opens. -/
def metadataType (line : Line) : Option Line :=
  if typed.isPrefixOf line then
    let rest := line.drop typed.length
    if rest ≠ [] /\ rest.all isTypeByte = true then some rest else none
  else none

/-- Whether a run of comments ends in front of these lines. -/
def endsRun (lines : List Line) : Bool :=
  match lines with
  | [] => true
  | line :: _ => (content line).isNone

/-- Whether a complete `script` block is among the lines.  The second argument says
whether a block is being read and, if so, whether it is a `script` block. -/
def repeatsBlock : List Line -> Option Bool -> Bool
  | [], _ => false
  | line :: lines, none =>
    match metadataType line with
    | some type => repeatsBlock lines (some (type = scriptType))
    | none => repeatsBlock lines none
  | line :: lines, some isScriptBlock =>
    if (content line).isNone then repeatsBlock lines none
    else if line = closing /\ endsRun lines = true then
      isScriptBlock || repeatsBlock lines none
    else repeatsBlock lines (some isScriptBlock)

/-- The content of the block that the first line opens, and the lines behind it. -/
def parseLines (lines : List Line) : Except Pep723Error (List Line × List Line) := do
  let toml := commentRun (lines.drop 1)
  let index <- closingIndex toml.zipIdx.reverse false
  let postlude := lines.drop (index + 1)
  if repeatsBlock postlude none then .error .duplicateBlock
  else .ok (toml.take (index - 1), postlude)

def fromUtf8 (bytes : List UInt8) : Except Pep723Error (List UInt8) :=
  if isUtf8 bytes then .ok bytes else .error .utf8

/-- Whether the byte before the index, if there is one, ends a line. -/
def startsLine (contents : List UInt8) (index : Nat) : Bool :=
  index = 0 || contents[index - 1]? = some cr || contents[index - 1]? = some lf

def parse (contents : List UInt8) : Except Pep723Error (Option ScriptTag) :=
  match find opening contents with
  | none => .ok none
  | some index =>
    if !startsLine contents index then .ok none
    else do
      let prelude <- fromUtf8 (contents.take index)
      let text <- fromUtf8 (contents.drop index)
      if (lines text).head? ≠ some opening then .ok none
      else do
        let (toml, postlude) <- parseLines (lines text)
        .ok (some ⟨prelude, joinLines toml, joinLines postlude⟩)

/-! ## The grammar of a block -/

def IsComment (line : Line) : Prop := line = [hash] \/ [hash, space] <+: line

instance : DecidablePred IsComment := fun line =>
  inferInstanceAs (Decidable (line = [hash] \/ [hash, space] <+: line))

/-- The first line opens a block with these lines in it and these behind it.  The end is
the last closing pragma of the run of comments. -/
structure Block (lines block after : List Line) : Prop where
  parts : lines = opening :: (block ++ closing :: after)
  comments : ∀ line ∈ block, IsComment line
  last : closing ∉ after.takeWhile fun line => IsComment line

variable {line : Line}

lemma content_of_isComment (isComment : IsComment line) :
    content line = some (line.drop 2) := by
  rcases isComment with rfl | ⟨rest, rfl⟩
  · rfl
  · rfl

lemma content_of_not_isComment (other : ¬IsComment line) :
    content line = none := by
  cases line with
  | nil => rfl
  | cons first rest =>
    by_cases same : first = hash
    case neg => exact if_neg same
    subst same
    cases rest with
    | nil => exact absurd (.inl rfl) other
    | cons second rest =>
      have blank : second ≠ space := fun blank => other (.inr ⟨rest, by rw [blank]; rfl⟩)
      simp [content, blank]

lemma isNone_content_iff : (content line).isNone <-> ¬IsComment line := by
  by_cases isComment : IsComment line
  · simp [content_of_isComment isComment, isComment]
  · simp [content_of_not_isComment isComment, isComment]

/-- Only the closing pragma is read as three slashes. -/
lemma eq_closing_of_drop (isComment : IsComment line)
    (same : line.drop 2 = slashes) : line = closing := by
  rcases isComment with rfl | ⟨rest, rfl⟩
  · cases same
  · exact congrArg ([hash, space] ++ ·) same

lemma commentRun_eq (lines : List Line) :
    commentRun lines = (lines.takeWhile fun line => IsComment line).map (List.drop 2) := by
  induction lines with
  | nil => rfl
  | cons line lines ih =>
    by_cases isComment : IsComment line
    · simp [commentRun, content_of_isComment isComment, isComment, ih]
    · simp [commentRun, content_of_not_isComment isComment, isComment]

lemma slashes_mem_commentRun {lines : List Line} :
    slashes ∈ commentRun lines <-> closing ∈ lines.takeWhile fun line => IsComment line := by
  rw [commentRun_eq, mem_map]
  constructor
  · rintro ⟨line, mem, same⟩
    have isComment : IsComment line := by simpa using mem_takeWhile_imp mem
    rwa [<- eq_closing_of_drop isComment same]
  · exact fun mem => ⟨closing, mem, rfl⟩

/-- The run of a block goes over its end into the comments behind it. -/
lemma Block.commentRun {lines block after : List Line} (isBlock : Block lines block after) :
    Scripts.commentRun (lines.drop 1) =
      block.map (List.drop 2) ++ slashes :: Scripts.commentRun after := by
  rw [isBlock.parts, commentRun_eq, drop_one, tail_cons,
    takeWhile_append_of_pos fun line mem => decide_eq_true (isBlock.comments line mem),
    takeWhile_cons_of_pos (by decide), map_append, map_cons, commentRun_eq]
  rfl

/-- A run with a closing pragma in it is the run of a block. -/
lemma exists_block {rest : List Line}
    (closes : closing ∈ rest.takeWhile fun line => IsComment line) :
    ∃ block after, Block (opening :: rest) block after := by
  induction rest with
  | nil => cases closes
  | cons line rest ih =>
    by_cases isComment : IsComment line
    case neg =>
      rw [takeWhile_cons_of_neg (by simpa using isComment)] at closes
      cases closes
    by_cases later : closing ∈ rest.takeWhile fun line => IsComment line
    · rcases ih later with ⟨block, after, parts, comments, last⟩
      refine ⟨line :: block, after, ?_, ?_, last⟩
      · rw [(cons.inj parts).2]
        rfl
      · exact forall_mem_cons.mpr ⟨isComment, comments⟩
    · rw [takeWhile_cons_of_pos (by simpa using isComment), mem_cons] at closes
      rcases closes with rfl | closes
      · exact ⟨[], rest, rfl, forall_mem_nil _, later⟩
      · exact absurd closes later

/-! ## The scan backwards -/

lemma closingIndex_append {seen rest : List (Line × Nat)} {index : Nat}
    (missing : ∀ entry ∈ seen, entry.1 ≠ slashes) (flag : Bool) :
    closingIndex (seen ++ (slashes, index) :: rest) flag = .ok (index + 1) := by
  induction seen generalizing flag with
  | nil => exact if_pos rfl
  | cons entry seen ih =>
    rcases forall_mem_cons.mp missing with ⟨different, missing⟩
    exact (if_neg different).trans (ih missing _)

lemma closingIndex_missing {entries : List (Line × Nat)}
    (missing : ∀ entry ∈ entries, entry.1 ≠ slashes) (flag : Bool) :
    closingIndex entries flag = .error .unclosedBlock \/
      closingIndex entries flag = .error .unclosedBlockTrailingContent := by
  induction entries generalizing flag with
  | nil => cases flag <;> simp [closingIndex]
  | cons entry entries ih =>
    rcases forall_mem_cons.mp missing with ⟨different, missing⟩
    rw [closingIndex, if_neg different]
    exact ih missing _

/-- On a block, the lines are taken apart as the grammar says. -/
lemma Block.parseLines {lines block after : List Line} (isBlock : Block lines block after) :
    Scripts.parseLines lines =
      if repeatsBlock after none then .error .duplicateBlock
      else .ok (block.map (List.drop 2), after) := by
  have run := isBlock.commentRun
  have missing : ∀ entry,
      entry ∈ ((Scripts.commentRun after).zipIdx (block.length + 1)).reverse ->
        entry.1 ≠ slashes := by
    intro entry mem same
    refine isBlock.last (slashes_mem_commentRun.mp ?_)
    rw [<- same]
    exact fst_mem_of_mem_zipIdx (mem_reverse.mp mem)
  have index : closingIndex (Scripts.commentRun (lines.drop 1)).zipIdx.reverse false =
      .ok (block.length + 1) := by
    rw [run, zipIdx_append, reverse_append, zipIdx_cons, reverse_cons,
      append_assoc, length_map, Nat.zero_add]
    exact closingIndex_append missing false
  have rest : lines.drop (block.length + 1 + 1) = after := by
    rw [isBlock.parts]
    simp
  have taken : (Scripts.commentRun (lines.drop 1)).take (block.length + 1 - 1) =
      block.map (drop 2) := by
    rw [run, Nat.add_sub_cancel]
    simp
  simp only [Scripts.parseLines, index, rest, taken, bind, Except.bind]

lemma parseLines_unclosed {lines : List Line}
    (unclosed : closing ∉ (lines.drop 1).takeWhile fun line => IsComment line) :
    parseLines lines = .error .unclosedBlock \/
      parseLines lines = .error .unclosedBlockTrailingContent := by
  have missing : ∀ entry ∈ (commentRun (lines.drop 1)).zipIdx.reverse, entry.1 ≠ slashes := by
    intro entry mem same
    refine unclosed (slashes_mem_commentRun.mp ?_)
    rw [<- same]
    exact fst_mem_of_mem_zipIdx (mem_reverse.mp mem)
  rcases closingIndex_missing missing false with failed | failed
  · left
    simp only [parseLines, failed, bind, Except.bind]
  · right
    simp only [parseLines, failed, bind, Except.bind]

/-- Lines that are parsed are a block. -/
lemma parseLines_ok {rest toml postlude : List Line}
    (parsed : parseLines (opening :: rest) = .ok (toml, postlude)) :
    ∃ block, Block (opening :: rest) block postlude /\
      toml = block.map (List.drop 2) /\ repeatsBlock postlude none = false := by
  by_cases closes : closing ∈ rest.takeWhile fun line => IsComment line
  · rcases exists_block closes with ⟨block, after, isBlock⟩
    rw [isBlock.parseLines] at parsed
    split at parsed
    · cases parsed
    next single =>
      cases parsed
      exact ⟨block, isBlock, rfl, Bool.not_eq_true _ ▸ single⟩
  · rcases @parseLines_unclosed (opening :: rest) closes with failed | failed
    · rw [failed] at parsed
      cases parsed
    · rw [failed] at parsed
      cases parsed

/-! ## A second block -/

lemma takeWhile_eq_nil_of_endsRun {after : List Line} (ends : endsRun after) :
    (after.takeWhile fun line => IsComment line) = [] := by
  cases after with
  | nil => rfl
  | cons line after =>
    exact takeWhile_cons_of_neg (by simpa using isNone_content_iff.mp ends)

lemma eq_opening_of_metadataType (type : metadataType line = some scriptType) :
    line = opening := by
  unfold metadataType at type
  split at type
  next start =>
    rcases isPrefixOf_iff_prefix.mp start with ⟨rest, rfl⟩
    simp only [drop_left] at type
    split at type
    · rw [Option.some.inj type]
      rfl
    · cases type
  next => cases type

/-- Some line of these opens a block. -/
def HasBlock (lines : List Line) : Prop :=
  ∃ before rest, ∃ block after, lines = before ++ rest /\ Block rest block after

lemma HasBlock.append {lines : List Line} (hasBlock : HasBlock lines) (front : List Line) :
    HasBlock (front ++ lines) := by
  rcases hasBlock with ⟨before, rest, block, after, rfl, isBlock⟩
  exact ⟨front ++ before, rest, block, after, (append_assoc ..).symm, isBlock⟩

/-- What the scan reports is a block of the grammar.  While a `script` block is read,
the comments seen since its opening pragma are the block so far. -/
theorem hasBlock_of_repeatsBlock (lines : List Line) :
    (repeatsBlock lines none = true -> HasBlock lines) /\
    (repeatsBlock lines (some false) = true -> HasBlock lines) /\
    (repeatsBlock lines (some true) = true -> ∀ seen : List Line,
      (∀ line ∈ seen, IsComment line) -> HasBlock (opening :: (seen ++ lines))) := by
  induction lines with
  | nil => exact ⟨nofun, nofun, nofun⟩
  | cons line lines ih =>
    rcases ih with ⟨outside, insideOther, insideScript⟩
    refine ⟨fun repeated => ?_, fun repeated => ?_, fun repeated seen comments => ?_⟩
    · rw [repeatsBlock] at repeated
      split at repeated
      next type found =>
        by_cases script : type = scriptType
        · rw [decide_eq_true script] at repeated
          rw [eq_opening_of_metadataType (found.trans (congrArg some script))]
          exact insideScript repeated [] fun _ mem => absurd mem not_mem_nil
        · rw [decide_eq_false script] at repeated
          exact (insideOther repeated).append [line]
      next => exact (outside repeated).append [line]
    · rw [repeatsBlock] at repeated
      split at repeated
      next => exact (outside repeated).append [line]
      split at repeated
      next =>
        rw [Bool.false_or] at repeated
        exact (outside repeated).append [line]
      next => exact (insideOther repeated).append [line]
    · rw [repeatsBlock] at repeated
      split at repeated
      next => simpa using (outside repeated).append (opening :: (seen ++ [line]))
      next isComment =>
        split at repeated
        next closed =>
          refine ⟨[], _, seen, lines, rfl, by rw [closed.1], comments, ?_⟩
          rw [takeWhile_eq_nil_of_endsRun closed.2]
          exact not_mem_nil
        next =>
          have extended := insideScript repeated (seen ++ [line]) ?_
          · rwa [append_assoc] at extended
          · rw [isNone_content_iff, not_not] at isComment
            exact forall_mem_append.mpr ⟨comments, by simpa using isComment⟩

/-! ## The pragma in the contents -/

/-- The contents are cut at the start of a line, in front of the first mention of the
opening pragma. -/
structure Located (contents prelude text : List UInt8) : Prop where
  parts : contents = prelude ++ text
  boundary : prelude = [] \/ ∃ head terminator,
    prelude = head ++ [terminator] /\ (terminator = cr \/ terminator = lf)
  unmentioned : ¬opening <:+: prelude

variable {text : List UInt8}

lemma prefix_of_head_lines {line : List UInt8}
    (first : (lines text).head? = some line) : line <+: text := by
  by_cases mem : lf ∈ text
  · rcases eq_append_cons_of_mem mem with ⟨head, rest, rfl, single⟩
    rw [lines_append_lf single, head?_cons] at first
    rw [<- Option.some.inj first]
    unfold chomp
    split
    · have shorter := dropLast_prefix head
      exact shorter.trans (prefix_append _ _)
    · exact prefix_append _ _
  · rw [lines_of_not_mem mem] at first
    split at first
    · cases first
    · rw [<- Option.some.inj first]

variable {contents prelude : List UInt8}

section

variable (located : Located contents prelude text)

include located

lemma Located.find (first : opening <+: text) :
    ByteText.find opening contents = some prelude.length := by
  rcases first with ⟨rest, rfl⟩
  rw [located.parts]
  refine find_append rest (located.boundary.imp_right ?_) located.unmentioned
  rintro ⟨head, terminator, parts, rfl | rfl⟩
  · exact ⟨head, cr, parts, by decide⟩
  · exact ⟨head, lf, parts, by decide⟩

lemma Located.startsLine :
    Scripts.startsLine contents prelude.length := by
  rw [located.parts]
  rcases located.boundary with rfl | ⟨head, terminator, rfl, terminates⟩
  · rfl
  · have before : (head ++ [terminator] ++ text)[head.length + 1 - 1]? = some terminator := by
      simp
    rw [Scripts.startsLine, length_append, length_singleton, before]
    rcases terminates with rfl | rfl
    · simp
    · simp

lemma Located.halves (valid : isUtf8 contents)
    (first : opening <+: text) : isUtf8 prelude /\ isUtf8 text := by
  rcases first with ⟨rest, rfl⟩
  rw [located.parts] at valid
  have halves := isUtf8_cut (by decide) valid
  exact ⟨halves.1, (isUtf8_cons (by decide)).trans halves.2⟩

/-- At an opening pragma, `parse` goes by lines. -/
lemma Located.parse (valid : isUtf8 contents) (first : (lines text).head? = some opening) :
    Scripts.parse contents =
      (parseLines (lines text)).map fun found =>
        some ⟨prelude, joinLines found.1, joinLines found.2⟩ := by
  have start := prefix_of_head_lines first
  have taken : contents.take prelude.length = prelude := by
    rw [located.parts, take_left]
  have dropped : contents.drop prelude.length = text := by
    rw [located.parts, drop_left]
  have utf8 := located.halves valid start
  simp only [Scripts.parse, located.find start, located.startsLine, taken, dropped, fromUtf8,
    utf8.1, utf8.2, first, Bool.not_true, Bool.false_eq_true, if_false, if_true, ne_eq,
    not_true_eq_false, bind, Except.bind]
  cases parseLines (lines text) <;> rfl

end

/-- Cutting at the first mention of the pragma locates it, if a line starts there. -/
lemma located_of_find {index : Nat}
    (found : find opening contents = some index) (starts : startsLine contents index) :
    Located contents (contents.take index) (contents.drop index) := by
  rcases find_eq_some_iff.mp found with ⟨bound, _, earliest⟩
  refine ⟨(take_append_drop _ _).symm, ?_, ?_⟩
  · cases index with
    | zero => exact .inl rfl
    | succ index =>
      right
      rw [take_add_one]
      simp only [startsLine, Nat.add_sub_cancel, Bool.or_eq_true, decide_eq_true_eq] at starts
      rcases starts with (impossible | terminator) | terminator
      · exact absurd impossible (Nat.succ_ne_zero _)
      · exact ⟨_, cr, by rw [terminator]; rfl, .inl rfl⟩
      · exact ⟨_, lf, by rw [terminator]; rfl, .inr rfl⟩
  · rintro ⟨front, back, parts⟩
    have shorter : front.length < index := by
      have lengths := congrArg length parts
      have positive : 0 < opening.length := by decide
      simp only [length_append, length_take] at lengths
      omega
    refine earliest front.length shorter ⟨back ++ contents.drop index, ?_⟩
    conv_rhs => rw [<- take_append_drop index contents, <- parts]
    rw [append_assoc front, append_assoc front, drop_left, append_assoc]

/-- A tag is read from an opening pragma at the start of a line. -/
lemma exists_located_of_parse {tag : ScriptTag} (parsed : parse contents = .ok (some tag)) :
    isUtf8 contents /\ ∃ text, Located contents tag.prelude text /\
      (lines text).head? = some opening := by
  unfold parse at parsed
  split at parsed
  next => cases parsed
  next index found =>
    split at parsed
    next => cases parsed
    next starts =>
      rw [Bool.not_eq_true, Bool.not_eq_false'] at starts
      by_cases first : isUtf8 (contents.take index)
      case neg =>
        simp [fromUtf8, first, bind, Except.bind] at parsed
      by_cases second : isUtf8 (contents.drop index)
      case neg =>
        simp [fromUtf8, first, second, bind, Except.bind] at parsed
      simp only [fromUtf8, first, second, if_true, bind, Except.bind] at parsed
      split at parsed
      next => cases parsed
      next opens =>
        have valid := isUtf8_append first second
        rw [take_append_drop] at valid
        refine ⟨valid, contents.drop index, ?_, not_not.mp opens⟩
        have prelude : tag.prelude = contents.take index := by
          split at parsed
          next => cases parsed
          next => cases parsed; rfl
        rw [prelude]
        exact located_of_find found starts

/-- The parts of the script that a tag was read from. -/
lemma exists_block_of_parse {tag : ScriptTag} (parsed : parse contents = .ok (some tag)) :
    ∃ text block after, Located contents tag.prelude text /\ Block (lines text) block after /\
        repeatsBlock after none = false /\ tag.postlude = joinLines after := by
  rcases exists_located_of_parse parsed with ⟨valid, text, located, first⟩
  rw [located.parse valid first] at parsed
  rcases head?_eq_some_iff.mp first with ⟨rest, parts⟩
  rw [parts] at parsed
  cases result : parseLines (opening :: rest) with
  | error failure =>
    rw [result] at parsed
    cases parsed
  | ok found =>
    rw [result] at parsed
    rcases parseLines_ok result with ⟨block, isBlock, _, single⟩
    rw [<- parts] at isBlock
    refine ⟨text, block, found.2, located, isBlock, single, ?_⟩
    rw [<- Option.some.inj (Except.ok.inj parsed)]

/-! ## Finding the block of the grammar -/

/-- No line that comes before the first opening pragma mentions it. -/
def MentionedFirst (lines : List Line) : Prop :=
  ∀ before rest, lines = before ++ opening :: rest -> opening ∉ before ->
    ∀ line ∈ before, ¬opening <:+: line

lemma mentionedFirst_of_unmentioned {before : List Line} (rest : List Line)
    (unmentioned : ∀ line ∈ before, ¬opening <:+: line) :
    MentionedFirst (before ++ opening :: rest) := by
  intro front back parts first line mem
  rcases append_eq_append_iff.mp parts with ⟨middle, rfl, tail⟩ | ⟨middle, rfl, tail⟩
  · cases middle with
    | nil => exact unmentioned line (by simpa using mem)
    | cons next middle =>
      rw [(cons.inj tail).1] at first
      exact absurd (mem_append_right before mem_cons_self) first
  · exact unmentioned line (mem_append_left _ mem)

/-- The first pragma line is where the contents are cut. -/
lemma exists_located_of_lines {before rest : List Line}
    (unixLines : cr ∉ contents) (mentioned : MentionedFirst (lines contents))
    (parts : lines contents = before ++ opening :: rest) (first : opening ∉ before) :
    ∃ text, Located contents (unlines before) text /\ lines text = opening :: rest := by
  rcases exists_tail_of_lines unixLines parts with ⟨text, whole, tail⟩
  refine ⟨text, ⟨whole, ?_, fun inside => ?_⟩, tail⟩
  · rcases eq_nil_or_concat' before with rfl | ⟨front, line, rfl⟩
    · exact .inl rfl
    · exact .inr ⟨unlines front ++ line, lf, unlines_concat _ _, .inr rfl⟩
  · rcases infix_unlines (by decide) (by decide) inside with ⟨line, mem, mention⟩
    exact mentioned before rest parts first line mem mention

/-- A line of the part behind the cut is a line of the contents. -/
lemma Located.mem_lines (unixLines : cr ∉ contents) (located : Located contents prelude text)
    (mem : line ∈ lines text) : line ∈ lines contents := by
  rw [located.parts] at unixLines ⊢
  rcases located.boundary with rfl | ⟨head, terminator, rfl, rfl | rfl⟩
  · exact mem
  · exact absurd (by simp) unixLines
  · rw [append_assoc]
    exact mem_lines_append mem head

/-- Without a pragma line, a mention of the pragma is passed over. -/
lemma parse_of_not_mem (valid : isUtf8 contents) (unixLines : cr ∉ contents)
    (missing : opening ∉ lines contents) : parse contents = .ok none := by
  cases found : find opening contents with
  | none => simp only [parse, found]
  | some index =>
    by_cases starts : startsLine contents index
    case neg => simp [parse, found, starts]
    have located := located_of_find found starts
    have utf8 := located.halves valid (find_eq_some_iff.mp found).2.1
    have other : (lines (contents.drop index)).head? ≠ some opening :=
      fun first => missing (located.mem_lines unixLines (mem_of_mem_head? first))
    simp [parse, found, starts, fromUtf8, utf8.1, utf8.2, other, bind, Except.bind]

/-- If nothing before the first opening pragma mentions it, the block that the grammar has
there is found, and the metadata is its lines without their comment signs.  An error takes
its place if another block follows or if the block is never closed.  No block is reported
only if no line is the pragma. -/
theorem parse_of_mentionedFirst {contents : List UInt8} (valid : isUtf8 contents = true)
    (unixLines : cr ∉ contents) (mentioned : MentionedFirst (lines contents)) :
    (parse contents = .ok none <-> opening ∉ lines contents) /\
    ∀ before rest, lines contents = before ++ opening :: rest -> opening ∉ before ->
      (∀ block after, Block (opening :: rest) block after -> parse contents = .ok (some
          ⟨unlines before, joinLines (block.map (List.drop 2)), joinLines after⟩) \/
        (parse contents = .error .duplicateBlock /\ HasBlock after)) /\
      ((¬∃ block after, Block (opening :: rest) block after) ->
        parse contents = .error .unclosedBlock \/
          parse contents = .error .unclosedBlockTrailingContent) := by
  have byLines : ∀ before rest, lines contents = before ++ opening :: rest ->
      opening ∉ before -> parse contents = (parseLines (opening :: rest)).map fun found =>
        some ⟨unlines before, joinLines found.1, joinLines found.2⟩ := by
    intro before rest parts first
    rcases exists_located_of_lines unixLines mentioned parts first with ⟨text, located, tail⟩
    rw [located.parse valid (by rw [tail]; rfl), tail]
  refine ⟨⟨fun none mem => ?_, parse_of_not_mem valid unixLines⟩, ?_⟩
  · rcases eq_append_cons_of_mem mem with ⟨before, rest, parts, first⟩
    rw [byLines before rest parts first] at none
    cases result : parseLines (opening :: rest) with
    | error failure =>
      rw [result] at none
      cases none
    | ok found =>
      rw [result] at none
      cases none
  · intro before rest parts first
    rw [byLines before rest parts first]
    refine ⟨fun block after isBlock => ?_, fun unclosed => ?_⟩
    · rw [isBlock.parseLines]
      split
      next repeated =>
        exact .inr ⟨rfl, (hasBlock_of_repeatsBlock after).1 repeated⟩
      next => exact .inl rfl
    · have missing : closing ∉ ((opening :: rest).drop 1).takeWhile fun line => IsComment line :=
        fun closes => unclosed (exists_block closes)
      rcases parseLines_unclosed missing with failed | failed
      · exact .inl (by rw [failed]; rfl)
      · exact .inr (by rw [failed]; rfl)

/-- A line, a block with the line `a` in it, and another line. -/
def shortScript : List UInt8 :=
  unlines [[120], opening, [hash, space, 97], closing, [121]]

theorem parse_shortScript :
    parse shortScript = .ok (some ⟨[120, lf], [97, lf], [121, lf]⟩) := by
  have mentioned : MentionedFirst (lines shortScript) :=
    @mentionedFirst_of_unmentioned [[120]] [[hash, space, 97], closing, [121]]
      (by decide +kernel)
  have found := ((parse_of_mentionedFirst (by decide +kernel) (by decide +kernel) mentioned).2
    [[120]] [[hash, space, 97], closing, [121]] (by decide +kernel) (by decide +kernel)).1
    [[hash, space, 97]] [[121]] ⟨rfl, by decide +kernel, by decide +kernel⟩
  rcases found with found | ⟨_, before, rest, block, after, parts, isBlock⟩
  · exact found
  · have lengths := congrArg length parts
    rw [isBlock.parts] at lengths
    simp at lengths
    omega

/-- A pragma that is never closed is an error, although no block of the grammar is there. -/
theorem parse_unclosed :
    isUtf8 (unlines [opening]) = true /\ cr ∉ unlines [opening] /\
      ¬HasBlock (lines (unlines [opening])) /\
      parse (unlines [opening]) = .error .unclosedBlock := by
  refine ⟨by decide +kernel, by decide +kernel, ?_, by decide +kernel⟩
  have single : lines (unlines [opening]) = [opening] := by decide +kernel
  rw [single]
  rintro ⟨before, rest, block, after, parts, isBlock⟩
  have lengths := congrArg length parts
  rw [isBlock.parts] at lengths
  simp at lengths
  omega

end Uv.Scripts
