import Mathlib

namespace Uv.Library

open List

/-!
# Texts as byte strings

Programs that read a file see bytes, check that they are UTF-8, look for a marker and
go on by lines.  All three are about the same byte string here.  UTF-8 is read by an
automaton whose state is the list of ranges that the next bytes must lie in; a byte of
ASCII is never in such a range, so a text can be cut in front of it.  A line ends at a
line feed, and a carriage return in front of that line feed belongs to the terminator,
not to the line.
-/

/-! ## ASCII -/

section

variable (byte : UInt8)

def isAsciiDigit : Bool := 48 <= byte && byte <= 57

def isAsciiAlphabetic : Bool :=
  (65 <= byte && byte <= 90) || (97 <= byte && byte <= 122)

def isAsciiAlphanumeric : Bool := isAsciiAlphabetic byte || isAsciiDigit byte

/-- Space, tab, line feed, form feed and carriage return. -/
def isAsciiWhitespace : Bool :=
  byte == 32 || byte == 9 || byte == 10 || byte == 12 || byte == 13

def toAsciiLowercase : UInt8 :=
  if 65 <= byte && byte <= 90 then byte + 32 else byte

def eqIgnoreAsciiCase (left right : UInt8) : Bool :=
  toAsciiLowercase left == toAsciiLowercase right

end

namespace ByteText

def lf : UInt8 := 10
def cr : UInt8 := 13

/-! ## UTF-8 -/

/-- The ranges of the bytes that follow a leading byte. -/
def continuation (lead : UInt8) : Option (List (UInt8 × UInt8)) :=
  if lead < 0x80 then some []
  else if lead < 0xC2 then none
  else if lead < 0xE0 then some [(0x80, 0xBF)]
  else if lead = 0xE0 then some [(0xA0, 0xBF), (0x80, 0xBF)]
  else if lead = 0xED then some [(0x80, 0x9F), (0x80, 0xBF)]
  else if lead < 0xF0 then some [(0x80, 0xBF), (0x80, 0xBF)]
  else if lead = 0xF0 then some [(0x90, 0xBF), (0x80, 0xBF), (0x80, 0xBF)]
  else if lead < 0xF4 then some [(0x80, 0xBF), (0x80, 0xBF), (0x80, 0xBF)]
  else if lead = 0xF4 then some [(0x80, 0x8F), (0x80, 0xBF), (0x80, 0xBF)]
  else none

/-- Whether the bytes complete the pending ranges and are well formed after that. -/
def completes : List (UInt8 × UInt8) -> List UInt8 -> Bool
  | [], [] => true
  | _ :: _, [] => false
  | [], lead :: rest =>
    match continuation lead with
    | some ranges => completes ranges rest
    | none => false
  | range :: ranges, byte :: rest =>
    decide (range.1 <= byte /\ byte <= range.2) && completes ranges rest

def isUtf8 (text : List UInt8) : Bool := completes [] text

/-- No pending range has a byte of ASCII in it. -/
def AboveAscii (ranges : List (UInt8 × UInt8)) : Prop :=
  ∀ range ∈ ranges, 0x80 <= range.1

variable {ranges : List (UInt8 × UInt8)}

lemma continuation_bounds {lead : UInt8} (follows : continuation lead = some ranges) :
    ∀ range ∈ ranges, 0x80 <= range.1 /\ range.2 < 0xff := by
  have bounds : ranges.all (fun range => decide (0x80 <= range.1 /\ range.2 < 0xff)) := by
    unfold continuation at follows
    repeat' split at follows
    all_goals cases follows <;> decide
  exact fun range mem => of_decide_eq_true (all_eq_true.mp bounds range mem)

variable {byte : UInt8}

lemma continuation_of_ascii (ascii : byte < 0x80) :
    continuation byte = some [] := if_pos ascii

variable {text : List UInt8}

/-- What follows a completed text starts afresh. -/
lemma completes_append (complete : completes ranges text) (rest : List UInt8) :
    completes ranges (text ++ rest) = isUtf8 rest := by
  induction text generalizing ranges with
  | nil =>
    cases ranges with
    | nil => rfl
    | cons range ranges => cases complete
  | cons byte text ih =>
    cases ranges with
    | nil =>
      simp only [completes, cons_append] at complete ⊢
      cases follows : continuation byte with
      | none => simp only [follows] at complete; cases complete
      | some ranges =>
        simp only [follows] at complete ⊢
        exact ih complete
    | cons range ranges =>
      simp only [completes, cons_append, Bool.and_eq_true] at complete ⊢
      rw [ih complete.2, complete.1, Bool.true_and]

variable {rest : List UInt8}

lemma isUtf8_append (first : isUtf8 text) (second : isUtf8 rest) : isUtf8 (text ++ rest) :=
  (completes_append first rest).trans second

/-- A byte of ASCII cannot be inside a longer sequence. -/
lemma completes_cut (above : AboveAscii ranges) (ascii : byte < 0x80)
    (complete : completes ranges (text ++ byte :: rest)) :
    completes ranges text /\ isUtf8 rest := by
  induction text generalizing ranges with
  | nil =>
    cases ranges with
    | nil =>
      refine ⟨rfl, ?_⟩
      simpa only [nil_append, completes, continuation_of_ascii ascii, isUtf8]
        using complete
    | cons range ranges =>
      simp only [completes, nil_append, Bool.and_eq_true, decide_eq_true_eq] at complete
      have bound := UInt8.le_trans (above range mem_cons_self) complete.1.1
      exact absurd ascii (UInt8.not_lt.mpr bound)
  | cons first text ih =>
    cases ranges with
    | nil =>
      simp only [completes, cons_append] at complete ⊢
      cases follows : continuation first with
      | none => simp only [follows] at complete; cases complete
      | some ranges =>
        simp only [follows] at complete ⊢
        exact ih
          (fun range mem => (continuation_bounds follows range mem).1) complete
    | cons range ranges =>
      simp only [completes, cons_append, Bool.and_eq_true] at complete ⊢
      have rest := ih
        (forall_mem_cons.mp above).2 complete.2
      exact ⟨⟨complete.1, rest.1⟩, rest.2⟩

lemma isUtf8_cut (ascii : byte < 0x80) (valid : isUtf8 (text ++ byte :: rest)) :
    isUtf8 text /\ isUtf8 rest :=
  completes_cut (forall_mem_nil _) ascii valid

lemma isUtf8_cons (ascii : byte < 0x80) :
    isUtf8 (byte :: rest) = isUtf8 rest := by
  simp only [isUtf8, completes, continuation_of_ascii ascii]

/-- The byte `0xff` is not in a text. -/
lemma completes_not_mem (below : ∀ range ∈ ranges, range.2 < 0xff)
    (complete : completes ranges text) : (0xff : UInt8) ∉ text := by
  induction text generalizing ranges with
  | nil => exact not_mem_nil
  | cons byte text ih =>
    intro mem
    cases ranges with
    | nil =>
      rw [completes] at complete
      cases follows : continuation byte with
      | none => simp [follows] at complete
      | some ranges =>
        simp only [follows] at complete
        rcases mem_cons.mp mem with rfl | mem
        · have invalid : continuation 0xff = none := by decide
          exact absurd (invalid.symm.trans follows) nofun
        · exact ih
            (fun range mem => (continuation_bounds follows range mem).2) complete mem
    | cons range ranges =>
      simp only [completes, Bool.and_eq_true, decide_eq_true_eq] at complete
      rcases forall_mem_cons.mp below with ⟨first, below⟩
      rcases mem_cons.mp mem with rfl | mem
      · exact absurd first (UInt8.not_lt.mpr complete.1.2)
      · exact ih below complete.2 mem

lemma not_mem_of_isUtf8 (valid : isUtf8 text) :
    (0xff : UInt8) ∉ text :=
  completes_not_mem (forall_mem_nil _) valid

variable {separator : UInt8}

lemma isUtf8_splitOn {piece : List UInt8} (ascii : separator < 0x80)
    (valid : isUtf8 text) (mem : piece ∈ text.splitOn separator) :
    isUtf8 piece := by
  induction length : text.length using Nat.strong_induction_on generalizing text with
  | _ length' ih =>
    by_cases separated : separator ∈ text
    · rcases eq_append_cons_of_mem separated with ⟨first, rest, rfl, single⟩
      rw [splitOn_append_cons_self_of_not_mem single] at mem
      have halves := isUtf8_cut ascii valid
      rcases mem_cons.mp mem with rfl | mem
      · exact halves.1
      · refine ih rest.length ?_ halves.2 mem rfl
        simp only [length_append, length_cons] at length
        omega
    · rw [splitOn_eq_singleton separated] at mem
      rwa [mem_singleton.mp mem]

/-! ## Lines -/

/-- A line without the carriage return of its terminator. -/
def chomp (line : List UInt8) : List UInt8 :=
  if line.getLast? = some cr then line.dropLast else line

/-- The lines of a text.  What follows the last line feed is a line if it is not empty,
and it keeps a carriage return at its end. -/
def lines (text : List UInt8) : List (List UInt8) :=
  let pieces := text.splitOn lf
  pieces.dropLast.map chomp ++ [pieces.getLastD []].filter (fun piece => piece ≠ [])

/-- The lines, each with its line feed. -/
def unlines (lines : List (List UInt8)) : List UInt8 :=
  lines.flatMap fun line => line ++ [lf]

/-- The lines with line feeds between them and one after the last. -/
def joinLines (lines : List (List UInt8)) : List UInt8 :=
  [lf].intercalate lines ++ [lf]

lemma lines_of_not_mem (single : lf ∉ text) :
    lines text = if text = [] then [] else [text] := by
  unfold lines
  rw [splitOn_eq_singleton single]
  by_cases empty : text = []
  · rw [if_pos empty, empty]
    rfl
  · rw [if_neg empty]
    simp [empty]

variable {line : List UInt8}

lemma lines_append_lf (single : lf ∉ line) (rest : List UInt8) :
    lines (line ++ lf :: rest) = chomp line :: lines rest := by
  unfold lines
  rw [splitOn_append_cons_self_of_not_mem single]
  cases pieces : rest.splitOn lf with
  | nil => exact absurd pieces (splitOn_ne_nil _ _)
  | cons piece others => simp

/-- Induction along the lines of a text. -/
@[elab_as_elim]
lemma line_induction {motive : List UInt8 -> Prop} (last : ∀ text, lf ∉ text -> motive text)
    (terminated : ∀ line rest, lf ∉ line -> motive rest -> motive (line ++ lf :: rest))
    (text : List UInt8) : motive text := by
  induction length : text.length using Nat.strong_induction_on generalizing text with
  | _ length' ih =>
    by_cases mem : lf ∈ text
    · rcases eq_append_cons_of_mem mem with ⟨line, rest, rfl, single⟩
      refine terminated line rest single (ih rest.length ?_ rest rfl)
      simp only [length_append, length_cons] at length
      omega
    · exact last text mem

lemma mem_of_mem_chomp (mem : byte ∈ chomp line) :
    byte ∈ line := by
  unfold chomp at mem
  split at mem
  · exact mem_of_mem_dropLast mem
  · exact mem

lemma mem_lines_append (mem : line ∈ lines text) (before : List UInt8) :
    line ∈ lines (before ++ lf :: text) := by
  induction before using line_induction with
  | last before single =>
    rw [lines_append_lf single]
    exact mem_cons_of_mem _ mem
  | terminated first before single ih =>
    rw [append_assoc, cons_append, lines_append_lf single]
    exact mem_cons_of_mem _ ih

lemma lines_ne_nil (nonempty : text ≠ []) : lines text ≠ [] := by
  by_cases mem : lf ∈ text
  · rcases eq_append_cons_of_mem mem with ⟨line, rest, rfl, single⟩
    rw [lines_append_lf single]
    exact cons_ne_nil _ _
  · rw [lines_of_not_mem mem, if_neg nonempty]
    exact cons_ne_nil _ _

/-- A line has only bytes of the text and no line feed. -/
lemma mem_lines (mem : line ∈ lines text) :
    lf ∉ line /\ ∀ byte ∈ line, byte ∈ text := by
  induction text using line_induction with
  | last text single =>
    rw [lines_of_not_mem single] at mem
    split at mem
    · cases mem
    · rw [mem_singleton.mp mem]
      exact ⟨single, fun _ => id⟩
  | terminated first rest single ih =>
    rw [lines_append_lf single] at mem
    rcases mem_cons.mp mem with rfl | mem
    · exact ⟨fun inside => single (mem_of_mem_chomp inside),
        fun byte inside => mem_append_left _ (mem_of_mem_chomp inside)⟩
    · have found := ih mem
      exact ⟨found.1, fun byte inside =>
        mem_append_right _ (mem_cons_of_mem _ (found.2 byte inside))⟩

/-- Whether a carriage return would be lost if a line feed followed. -/
def EndsInCr (line : List UInt8) : Prop := line.getLast? = some cr

instance : DecidablePred EndsInCr := fun line =>
  inferInstanceAs (Decidable (line.getLast? = some cr))

lemma chomp_of_not_endsInCr (keeps : ¬EndsInCr line) :
    chomp line = line := if_neg keeps

lemma length_chomp_lt (loses : EndsInCr line) :
    (chomp line).length < line.length := by
  cases line with
  | nil => cases loses
  | cons byte line =>
    have shorter : chomp (byte :: line) = (byte :: line).dropLast := if_pos loses
    rw [shorter, length_dropLast, length_cons]
    omega

lemma length_chomp_le (line : List UInt8) : (chomp line).length <= line.length := by
  by_cases loses : EndsInCr line
  · exact (length_chomp_lt loses).le
  · rw [chomp_of_not_endsInCr loses]

lemma not_endsInCr_of_not_mem (absent : cr ∉ line) : ¬EndsInCr line :=
  fun loses => absent (mem_of_getLast? loses)

@[simp] lemma unlines_nil : unlines [] = [] := rfl

@[simp] lemma unlines_cons (line : List UInt8) (lines : List (List UInt8)) :
    unlines (line :: lines) = line ++ lf :: unlines lines := by
  simp [unlines]

variable {written : List (List UInt8)}

/-- Lines that are written out and read again lose their carriage returns only. -/
lemma lines_unlines_append (single : ∀ line ∈ written, lf ∉ line) (rest : List UInt8) :
    lines (unlines written ++ rest) = written.map chomp ++ lines rest := by
  induction written with
  | nil => rfl
  | cons line written ih =>
    rw [unlines_cons, append_assoc, cons_append, lines_append_lf (single line mem_cons_self),
      ih (forall_mem_cons.mp single).2]
    rfl

lemma lines_unlines (single : ∀ line ∈ written, lf ∉ line) :
    lines (unlines written) = written.map chomp := by
  simpa [lines_of_not_mem] using lines_unlines_append single []

lemma joinLines_eq (nonempty : written ≠ []) :
    joinLines written = unlines written := by
  induction written with
  | nil => exact absurd rfl nonempty
  | cons line written ih =>
    cases written with
    | nil => simp [joinLines]
    | cons next written =>
      have rest := ih (cons_ne_nil _ _)
      rw [joinLines] at rest ⊢
      rw [intercalate_cons_of_ne_nil (cons_ne_nil _ _), append_assoc, rest, unlines_cons line]
      simp

/-- Without carriage returns, the text in front of a line is the lines before it. -/
lemma exists_tail_of_lines {before after : List (List UInt8)}
    (unixLines : cr ∉ text) (found : lines text = before ++ line :: after) :
    ∃ tail, text = unlines before ++ tail /\ lines tail = line :: after := by
  induction before generalizing text with
  | nil => exact ⟨text, rfl, found⟩
  | cons first before ih =>
    by_cases mem : lf ∈ text
    · rcases eq_append_cons_of_mem mem with ⟨head, rest, rfl, single⟩
      have absent : cr ∉ head := fun inside => unixLines (mem_append_left _ inside)
      rw [lines_append_lf single, chomp_of_not_endsInCr (not_endsInCr_of_not_mem absent)] at found
      rcases cons.inj found with ⟨rfl, others⟩
      rcases ih (fun inside => unixLines (mem_append_right _
        (mem_cons_of_mem _ inside))) others with ⟨tail, rfl, after⟩
      exact ⟨tail, by simp, after⟩
    · rw [lines_of_not_mem mem] at found
      split at found
      · cases found
      · exact absurd (congrArg length found) (by simp)

lemma isUtf8_lines (valid : isUtf8 text) (mem : line ∈ lines text) : isUtf8 line := by
  induction text using line_induction with
  | last text single =>
    rw [lines_of_not_mem single] at mem
    split at mem
    · cases mem
    · rwa [mem_singleton.mp mem]
  | terminated first rest single ih =>
    rw [lines_append_lf single] at mem
    have parts := isUtf8_cut (by decide) valid
    rcases mem_cons.mp mem with rfl | mem
    · unfold chomp
      split
      next loses =>
        -- The carriage return that is dropped is a byte of ASCII as well.
        have whole := dropLast_append_getLast? cr loses
        rw [<- whole] at parts
        exact (isUtf8_cut (by decide) parts.1).1
      next => exact parts.1
    · exact ih parts.2 mem

lemma isUtf8_unlines (valid : ∀ line ∈ written, isUtf8 line) :
    isUtf8 (unlines written) := by
  induction written with
  | nil => rfl
  | cons line written ih =>
    rw [unlines_cons]
    refine isUtf8_append (valid line mem_cons_self) ?_
    rw [isUtf8_cons (by decide)]
    exact ih (forall_mem_cons.mp valid).2

/-! ## Looking for a pattern -/

/-- The first position at which the pattern stands. -/
def find (pattern text : List UInt8) : Option Nat :=
  text.tails.findIdx? fun tail => pattern.isPrefixOf tail

variable {pattern : List UInt8}

lemma find_eq_some_iff {index : Nat} :
    find pattern text = some index <-> index <= text.length /\
      pattern <+: text.drop index /\ ∀ earlier, earlier < index ->
        ¬pattern <+: text.drop earlier := by
  simp only [find, findIdx?_eq_some_iff_getElem, getElem_tails,
    isPrefixOf_iff_prefix, length_tails, Nat.lt_succ_iff, exists_prop]

/-- A pattern without the separator does not start at it. -/
lemma eq_nil_of_prefix_cons {after : List UInt8}
    (absent : separator ∉ pattern) (start : pattern <+: separator :: after) : pattern = [] := by
  rcases prefix_cons_iff.mp start with empty | ⟨rest, rfl, _⟩
  · exact empty
  · exact absurd mem_cons_self absent

/-- A pattern without the separator does not reach across it. -/
lemma infix_append_cons {before after : List UInt8} (absent : separator ∉ pattern) :
    pattern <:+: before ++ separator :: after <-> pattern <:+: before \/ pattern <:+: after := by
  constructor
  · intro inside
    rcases infix_append_iff.mp inside with inside | inside | ⟨first, second, rfl, stop, start⟩
    · exact .inl inside
    · rcases infix_cons_iff.mp inside with start | inside
      · rw [eq_nil_of_prefix_cons absent start]
        exact .inl nil_infix
      · exact .inr inside
    · have empty := eq_nil_of_prefix_cons
        (fun mem => absent (mem_append_right _ mem)) start
      rw [empty, append_nil]
      exact .inl stop.isInfix
  · rintro (inside | inside)
    · exact inside.trans infix_append_left
    · exact (inside.trans (infix_cons (infix_refl _))).trans infix_append_right

lemma prefix_of_prefix_append_cons {before after : List UInt8}
    (absent : separator ∉ pattern) (start : pattern <+: before ++ separator :: after) :
    pattern <+: before := by
  have whole : before ++ [separator] <+: before ++ separator :: after := by
    rw [prefix_append_right_inj]
    exact prefix_append [separator] after
  rcases prefix_or_prefix_of_prefix start whole with start | reaches
  · rcases prefix_concat_iff.mp start with rfl | start
    · exact absurd (mem_append_right _ mem_cons_self) absent
    · exact start
  · exact absurd (reaches.subset (mem_append_right _ mem_cons_self)) absent

lemma infix_unlines
    (nonempty : pattern ≠ []) (absent : lf ∉ pattern) (inside : pattern <:+: unlines written) :
    ∃ line ∈ written, pattern <:+: line := by
  induction written with
  | nil => exact absurd (infix_nil.mp inside) nonempty
  | cons line written ih =>
    rw [unlines_cons, infix_append_cons absent] at inside
    rcases inside with inside | inside
    · exact ⟨line, mem_cons_self, inside⟩
    · rcases ih inside with ⟨other, mem, inside⟩
      exact ⟨other, mem_cons_of_mem _ mem, inside⟩

lemma unlines_concat (written : List (List UInt8)) (line : List UInt8) :
    unlines (written ++ [line]) = unlines written ++ line ++ [lf] := by
  simp [unlines]

/-- Behind a separator that the pattern lacks, the pattern is found at once if the text
in front does not have it. -/
lemma find_append {before : List UInt8} (rest : List UInt8)
    (boundary : before = [] \/ ∃ head separator,
      before = head ++ [separator] /\ separator ∉ pattern) (absent : ¬pattern <:+: before) :
    find pattern (before ++ (pattern ++ rest)) = some before.length := by
  rw [find_eq_some_iff]
  refine ⟨by simp, ?_, fun earlier bound start => ?_⟩
  · rw [drop_left]
    exact prefix_append _ _
  rcases boundary with rfl | ⟨head, separator, rfl, missing⟩
  · cases bound
  · rw [length_append, length_singleton, Nat.lt_succ_iff] at bound
    rw [append_assoc, drop_append_of_le_length bound, singleton_append] at start
    have inside := prefix_of_prefix_append_cons missing start
    exact absent (inside.isInfix.trans ((drop_suffix _ _).isInfix.trans infix_append_left))

end ByteText
end Uv.Library
