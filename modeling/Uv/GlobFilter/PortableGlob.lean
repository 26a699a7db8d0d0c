import Uv.Library.Result

namespace Uv.GlobFilter

open Library List

/-!
# Portable globs

The check of a glob looks for `..` at the start of a component.  An escaped character
leaves the mark for the start of a component as it was, and the look-ahead compares with
a plain dot, so a parent directory can be written with an escaped dot.
-/

inductive PortableGlobParser where
  | pep639
  | uv

/-- The errors, with positions in the glob. -/
inductive PortableGlobError where
  | tooManyStars (pos : Nat)
  | parentDirectory (pos : Nat)
  | invalidCharacterRange (pos : Nat) (invalid : Char)
  | invalidBackslash (pos : Nat)
  | invalidEscapee (pos : Nat)
  | trailingEscape (pos : Nat)
  | invalidCharacter (pos : Nat) (invalid : Char)
  | invalidCharacterUv (pos : Nat) (invalid : Char)
  deriving DecidableEq

variable (isAlphanumeric : Char -> Bool)

/-- The characters up to a closing bracket. -/
def skipRange : Nat -> List Char -> Except PortableGlobError (Nat × List Char)
  | pos, [] => .ok (pos, [])
  | pos, c :: rest =>
    if isAlphanumeric c || c ∈ ['_', '-', '.'] then skipRange (pos + 1) rest
    else if c = ']' then .ok (pos + 1, rest)
    else .error (.invalidCharacterRange pos c)

/-- The loop over the characters.  Each round takes at least one of them. -/
def checkLoop (parser : PortableGlobParser) :
    Nat -> Nat -> Bool -> List Char -> Except PortableGlobError Unit
  | 0, _, _, _ => .ok ()
  | _ + 1, _, _, [] => .ok ()
  | fuel + 1, pos, startOrSlash, c :: rest =>
    if c = '*' then
      let starRun := 1 + (rest.takeWhile (· == '*')).length
      let behind := rest.dropWhile (· == '*')
      if 3 <= starRun \/ starRun = 2 /\ behind.head?.any (· != '/') then .error (.tooManyStars pos)
      else checkLoop parser fuel (pos + starRun) false behind
    else if isAlphanumeric c || c ∈ ['_', '-', '?'] then checkLoop parser fuel (pos + 1) false rest
    else if c = '.' then
      if startOrSlash /\ rest.head? = some '.' then .error (.parentDirectory pos)
      else checkLoop parser fuel (pos + 1) false rest
    else if c = '/' then checkLoop parser fuel (pos + 1) true rest
    else if c = '[' then do
      let behind <- skipRange isAlphanumeric (pos + 1) rest
      checkLoop parser fuel behind.1 false behind.2
    else if c = '\\' then
      match parser, rest with
      | .pep639, _ => .error (.invalidBackslash pos)
      | .uv, [] => .error (.trailingEscape pos)
      | .uv, escaped :: rest =>
        if escaped = '/' \/ escaped = '\\' then .error (.invalidEscapee (pos + 1))
        else checkLoop parser fuel (pos + 2) startOrSlash rest
    else match parser with
      | .pep639 => .error (.invalidCharacter pos c)
      | .uv => .error (.invalidCharacterUv pos c)

def check (parser : PortableGlobParser) (glob : List Char) : Except PortableGlobError Unit :=
  checkLoop isAlphanumeric parser glob.length 0 true glob

/-! ## What is accepted -/

/-- A glob that was read to its end, from a place with the given mark. -/
inductive Scanned : Bool -> List Char -> Prop
  | nil {start : Bool} : Scanned start []
  | slash {start : Bool} {rest : List Char} (scanned : Scanned true rest) : Scanned start ('/' :: rest)
  | escape {start : Bool} {c : Char} {rest : List Char} (other : c ≠ '/') (scanned : Scanned start rest) :
      Scanned start ('\\' :: c :: rest)
  | plain {start : Bool} {taken rest : List Char} (noSlash : '/' ∉ taken) (noEscape : '\\' ∉ taken)
      (noParent : start = true -> ¬ ['.', '.'] <+: taken ++ rest) (scanned : Scanned false rest) :
      Scanned start (taken ++ rest)

variable {isAlphanumeric} (punctuation : ∀ c, c ∈ ['.', '/', '\\'] -> isAlphanumeric c = false)

include punctuation

lemma ordinary {c : Char} {others : List Char} (noSlash : '/' ∉ others) (noEscape : '\\' ∉ others)
    (allowed : (isAlphanumeric c || decide (c ∈ others))) : '/' ∉ [c] /\ '\\' ∉ [c] := by
  have slash := punctuation '/' (by decide)
  have escape := punctuation '\\' (by decide)
  constructor <;> intro same <;> cases mem_singleton.mp same <;> simp_all

lemma skipRange_spec {pos : Nat} {rest : List Char} {behind : Nat × List Char}
    (done : skipRange isAlphanumeric pos rest = .ok behind) :
    ∃ taken, rest = taken ++ behind.2 /\ '/' ∉ taken /\ '\\' ∉ taken := by
  induction rest generalizing pos with
  | nil =>
    cases done
    exact ⟨[], rfl, not_mem_nil, not_mem_nil⟩
  | cons c rest ih =>
    rw [skipRange] at done
    split at done
    next allowed =>
      rcases ih done with ⟨taken, rfl, slash, escape⟩
      rcases ordinary punctuation (by decide) (by decide) allowed with ⟨slash', escape'⟩
      exact ⟨[c] ++ taken, rfl, fun mem => (mem_append.mp mem).elim slash' slash,
        fun mem => (mem_append.mp mem).elim escape' escape⟩
    next =>
      split at done
      next closing =>
        cases done
        exact ⟨[c], rfl, by simp [closing], by simp [closing]⟩
      next => cases done

lemma scanned_of_checkLoop {parser : PortableGlobParser} {fuel : Nat} :
    ∀ {pos : Nat} {start : Bool} {glob : List Char}, glob.length <= fuel ->
      checkLoop isAlphanumeric parser fuel pos start glob = .ok () -> Scanned start glob := by
  induction fuel with
  | zero =>
    intro pos start glob short _
    rw [length_eq_zero_iff.mp (Nat.le_zero.mp short)]
    exact .nil
  | succ fuel ih =>
    intro pos start glob short done
    cases glob with
    | nil => exact .nil
    | cons c rest =>
      have shorter : rest.length <= fuel := Nat.le_of_succ_le_succ short
      -- Only a dot can begin a parent directory.
      have noParent : c ≠ '.' -> ∀ others, start -> ¬ ['.', '.'] <+: c :: others :=
        fun other _ _ parent => other (cons_prefix_cons.mp parent).1.symm
      unfold checkLoop at done
      split at done
      next star =>
        subst star
        dsimp only at done
        split at done
        next => cases done
        next =>
          have split := takeWhile_append_dropWhile (p := (· == '*')) (l := rest)
          have stars : ∀ c, c ∈ '*' :: rest.takeWhile (· == '*') -> c = '*' := by
            intro c mem
            rcases mem_cons.mp mem with same | mem
            · exact same
            · have isStar := mem_takeWhile_imp mem
              exact beq_iff_eq.mp isStar
          have scanned := ih ((dropWhile_sublist _).length_le.trans shorter) done
          have glob := @Scanned.plain start _ _
            (fun mem => absurd (stars _ mem) (by decide))
            (fun mem => absurd (stars _ mem) (by decide)) (noParent (by decide) _) scanned
          rwa [cons_append, split] at glob
      split at done
      next allowed =>
        rcases ordinary punctuation (by decide) (by decide) allowed with ⟨slash, escape⟩
        refine @Scanned.plain start [c] rest slash escape (noParent ?_ rest) (ih shorter done)
        rintro rfl
        simp [punctuation '.' (by decide)] at allowed
      split at done
      next dotted =>
        subst dotted
        split at done
        next => cases done
        next single =>
          refine @Scanned.plain start ['.'] rest (by decide) (by decide) (fun atStart parent => ?_)
            (ih shorter done)
          cases rest with
          | nil => exact absurd parent.length_le (by decide)
          | cons next rest =>
            have same := (cons_prefix_cons.mp (cons_prefix_cons.mp parent).2).1
            exact single ⟨atStart, by rw [head?_cons, same]⟩
      split at done
      next slash =>
        subst slash
        exact .slash (ih shorter done)
      split at done
      next bracket =>
        subst bracket
        rcases of_bind_ok done with ⟨behind, skipped, continued⟩
        rcases skipRange_spec punctuation skipped with ⟨taken, rfl, slash, escape⟩
        have scanned := ih (le_trans (by simp) shorter) continued
        refine @Scanned.plain start ('[' :: taken) _ ?_ ?_ (noParent (by decide) _) scanned
        · simpa using slash
        · simpa using escape
      split at done
      next backslash =>
        subst backslash
        split at done
        next => cases done
        next => cases done
        next escaped rest =>
          split at done
          next => cases done
          next other =>
            exact .escape (fun same => other (.inl same)) (ih (Nat.le_of_succ_le shorter) done)
      next => split at done <;> cases done

omit punctuation

/-- The text that the glob matches, with escapes read as the escaped character. -/
def unescape : List Char -> List Char
  | '\\' :: c :: rest => c :: unescape rest
  | c :: rest => c :: unescape rest
  | [] => []

lemma splitOn_append {taken : List Char} (noSlash : '/' ∉ taken) (rest : List Char) :
    (taken ++ rest).splitOn '/' = (rest.splitOn '/').modifyHead (taken ++ ·) := by
  induction taken with
  | nil => cases split : rest.splitOn '/' <;> simp [split]
  | cons c taken ih =>
    rw [mem_cons, not_or] at noSlash
    rw [cons_append, splitOn_cons_eq_if_modifyHead, if_neg (by simpa using Ne.symm noSlash.1),
      ih noSlash.2, modifyHead_modifyHead]
    rfl

lemma unescape_append {taken : List Char} (noEscape : '\\' ∉ taken) (rest : List Char) :
    unescape (taken ++ rest) = taken ++ unescape rest := by
  induction taken with
  | nil => rfl
  | cons c taken ih =>
    rw [mem_cons, not_or] at noEscape
    rw [cons_append, unescape, ih noEscape.2]
    · rfl
    · exact fun _ _ same _ => noEscape.1 same.symm

/-- No component is `..` as it is written, and escapes do not reach over separators. -/
lemma Scanned.components {start : Bool} {glob : List Char} (scanned : Scanned start glob) :
    ['.', '.'] ∉ (if start then glob.splitOn '/' else (glob.splitOn '/').tail) /\
      (unescape glob).splitOn '/' = (glob.splitOn '/').map unescape := by
  induction scanned with
  | @nil start => cases start <;> decide
  | @slash start rest scanned ih =>
    have split := fun rest => @splitOn_append_cons_self _ _ _ '/' [] rest
    simp only [nil_append, splitOn_nil, singleton_append] at split
    rw [unescape, split, split, ih.2]
    · refine ⟨?_, rfl⟩
      cases start <;> simpa using ih.1
    · exact fun _ _ impossible => by simp at impossible
  | @escape start c rest other scanned ih =>
    have plain : '/' ∉ ['\\', c] := by simpa using Ne.symm other
    have single : '/' ∉ [c] := by simpa using Ne.symm other
    have split := splitOn_append plain rest
    have split' := splitOn_append single (unescape rest)
    rw [cons_append, singleton_append] at split
    rw [singleton_append] at split'
    rw [unescape, split, split', ih.2]
    cases shape : rest.splitOn '/' with
    | nil => cases start <;> simp
    | cons first others =>
      rw [shape] at ih
      refine ⟨?_, rfl⟩
      cases start
      · exact ih.1
      · simpa using fun mem => ih.1 (mem_cons_of_mem _ mem)
  | @plain start taken rest noSlash noEscape noParent scanned ih =>
    rw [unescape_append noEscape, splitOn_append noSlash, splitOn_append noSlash, ih.2]
    cases shape : rest.splitOn '/' with
    | nil => exact absurd shape (splitOn_ne_nil _ _)
    | cons first others =>
      have tail : ['.', '.'] ∉ others := by
        rw [shape] at ih
        exact ih.1
      refine ⟨?_, ?_⟩
      · cases start
        · exact tail
        · have joined : ['/'].intercalate (rest.splitOn '/') = rest := intercalate_splitOn '/'
          rw [shape] at joined
          have begins : first <+: rest := by
            rw [<- joined]
            cases others <;> simp [intercalate]
          refine fun mem => (mem_cons.mp mem).elim (fun parent => ?_) tail
          apply noParent rfl
          rw [parent]
          exact (prefix_append_right_inj taken).mpr begins
      · rw [modifyHead_cons, map_cons, map_cons, modifyHead_cons, unescape_append noEscape]

/-- The ways to write `..` with an escaped dot. -/
def escapedParents : List (List Char) :=
  [['\\', '.', '.'], ['.', '\\', '.'], ['\\', '.', '\\', '.']]

lemma exists_of_unescape {part text : List Char} {c : Char} (read : unescape part = c :: text) :
    ∃ rest, unescape rest = text /\ (part = c :: rest \/ part = '\\' :: c :: rest) := by
  unfold unescape at read
  split at read
  next escaped rest =>
    cases read
    exact ⟨rest, rfl, .inr rfl⟩
  next own rest _ =>
    cases read
    exact ⟨rest, rfl, .inl rfl⟩
  next => cases read

lemma eq_nil_of_unescape {part : List Char} (read : unescape part = []) : part = [] := by
  unfold unescape at read
  split at read
  next => cases read
  next => cases read
  next => rfl

lemma unescape_eq_parent_iff (part : List Char) :
    unescape part = ['.', '.'] <-> part = ['.', '.'] \/ part ∈ escapedParents := by
  constructor
  · intro read
    rcases exists_of_unescape read with ⟨first, readFirst, rfl | rfl⟩ <;>
      rcases exists_of_unescape readFirst with ⟨second, readSecond, rfl | rfl⟩ <;>
      cases eq_nil_of_unescape readSecond <;> decide
  · rintro (rfl | mem)
    · rfl
    · simp only [escapedParents, mem_cons, not_mem_nil, or_false] at mem
      rcases mem with rfl | rfl | rfl <;> rfl

/-- An accepted glob has no parent directory among its components exactly if none is written
with an escaped dot. -/
theorem check_noParent_iff {isAlphanumeric : Char -> Bool}
    (punctuation : ∀ c, c ∈ ['.', '/', '\\'] -> isAlphanumeric c = false)
    {parser : PortableGlobParser} {glob : List Char}
    (accepted : check isAlphanumeric parser glob = .ok ()) :
    ['.', '.'] ∉ (unescape glob).splitOn '/' <->
      ∀ part ∈ glob.splitOn '/', part ∉ escapedParents := by
  have scanned := scanned_of_checkLoop punctuation le_rfl accepted
  rcases scanned.components with ⟨literal, same⟩
  rw [same, mem_map, not_exists]
  refine forall_congr' fun part => ?_
  rw [not_and, unescape_eq_parent_iff, not_or]
  refine imp_congr_right fun mem => and_iff_right ?_
  rintro rfl
  exact literal mem

/-- `a.b/.\*` is accepted. -/
theorem check_noParent_star :
    ['.', '.'] ∉ (unescape ['a', '.', 'b', '/', '.', '\\', '*']).splitOn '/' := by
  refine (@check_noParent_iff Char.isAlphanum ?_ .uv _ ?_).mpr ?_
  · simp only [mem_cons, not_mem_nil, or_false]
    rintro c (rfl | rfl | rfl) <;> rfl
  · decide
  · decide

/-- `\..` is accepted, and read as `..`. -/
theorem check_escapedParent :
    check Char.isAlphanum .uv ['\\', '.', '.'] = .ok () /\
      ['.', '.'] ∈ (unescape ['\\', '.', '.']).splitOn '/' := by
  constructor <;> decide

end Uv.GlobFilter
