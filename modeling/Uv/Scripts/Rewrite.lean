import Uv.Scripts.ScriptTag

namespace Uv.Scripts

open Library List
open Library.ByteText

/-!
# Writing the metadata of a script

`serialize_metadata` writes a block, and `Pep723Script::write` puts it between what was in
front of the old block and what was behind it.  Reading the result gives the same text in
front and the new metadata.  The text behind was joined with line feeds, so a carriage
return at the end of one of its lines is taken for a part of the terminator when it is
read again.
-/

/-- A line of metadata as a comment. -/
def comment (line : Line) : Line :=
  if line = [] then [hash] else [hash, space] ++ line

def serializeMetadata (metadata : List UInt8) : List UInt8 :=
  unlines (opening :: ((lines metadata).map comment ++ [closing]))

/-- The contents that `Pep723Script::write` writes. -/
def rewritten (tag : ScriptTag) (metadata : List UInt8) : List UInt8 :=
  tag.prelude ++ serializeMetadata metadata ++ tag.postlude

variable (after : List Line)

/-- What is written behind a block has at least one line. -/
def writtenLines : List Line := if after = [] then [[]] else after

lemma joinLines_eq_unlines :
    joinLines after = unlines (writtenLines after) := by
  unfold writtenLines
  split
  next empty =>
    rw [empty]
    rfl
  next nonempty => exact joinLines_eq nonempty

lemma joinLines_writtenLines :
    joinLines (writtenLines after) = joinLines after := by
  unfold writtenLines
  split
  next empty =>
    rw [empty]
    rfl
  next => rfl

variable {after : List Line}

lemma forall_mem_writtenLines {property : Line -> Prop}
    (empty : property []) (each : ∀ line ∈ after, property line) :
    ∀ line ∈ writtenLines after, property line := by
  unfold writtenLines
  split
  · exact forall_mem_singleton.mpr empty
  · exact each

lemma isComment_comment (line : Line) : IsComment (comment line) := by
  unfold comment
  split
  · exact .inl rfl
  · exact .inr (prefix_append _ _)

lemma drop_comment (line : Line) : (comment line).drop 2 = line := by
  unfold comment
  split
  next empty => exact empty.symm
  next => rfl

variable {line : Line}

theorem lf_not_mem_comment (single : lf ∉ line) : lf ∉ comment line := by
  unfold comment
  split
  · decide
  · intro mem
    rcases mem_append.mp mem with sign | mem
    · exact absurd sign (by decide)
    · exact single mem

lemma endsInCr_comment (keeps : ¬EndsInCr line) : ¬EndsInCr (comment line) := by
  unfold comment
  split
  · decide
  next nonempty =>
    intro loses
    exact keeps (by rwa [EndsInCr, getLast?_append_of_ne_nil _ nonempty] at loses)

variable {metadata : List UInt8}

/-- The lines of a text that is written as a block with lines behind it. -/
lemma lines_serializeMetadata (unixLines : cr ∉ metadata) (single : ∀ line ∈ after, lf ∉ line) :
    lines (serializeMetadata metadata ++ unlines after) =
      opening :: ((lines metadata).map comment ++ closing :: after.map chomp) := by
  have written : ∀ line ∈ opening :: ((lines metadata).map comment ++ [closing]),
      lf ∉ line /\ ¬EndsInCr line := by
    refine forall_mem_cons.mpr ⟨by decide, forall_mem_append.mpr ⟨?_, ?_⟩⟩
    · refine forall_mem_map.mpr fun line mem => ?_
      have bytes := mem_lines mem
      exact ⟨lf_not_mem_comment bytes.1, endsInCr_comment
        (not_endsInCr_of_not_mem fun inside => unixLines (bytes.2 cr inside))⟩
    · exact forall_mem_singleton.mpr (by decide)
  rw [serializeMetadata, lines_unlines_append fun line mem => (written line mem).1,
    lines_unlines single,
    map_congr_left fun line mem => chomp_of_not_endsInCr (written line mem).2,
    map_id']
  simp

lemma isUtf8_comment (valid : isUtf8 line) :
    isUtf8 (comment line) := by
  unfold comment
  split
  · decide
  · exact isUtf8_append (by decide) valid

lemma isUtf8_serializeMetadata (valid : isUtf8 metadata) :
    isUtf8 (serializeMetadata metadata) := by
  refine isUtf8_unlines (forall_mem_cons.mpr ⟨by decide,
    forall_mem_append.mpr ⟨?_, forall_mem_singleton.mpr (by decide)⟩⟩)
  exact forall_mem_map.mpr fun line mem => isUtf8_comment (isUtf8_lines valid mem)

/-- The lines behind a block are lines of the script. -/
lemma Block.mem_lines {lines block : List Line} (isBlock : Block lines block after)
    (mem : line ∈ after) : line ∈ lines := by
  rw [isBlock.parts]
  simp [mem]

lemma Block.written {lines block : List Line} (isBlock : Block lines block after)
    (metadata : List UInt8) :
    Block (opening :: ((ByteText.lines metadata).map comment ++ closing :: writtenLines after))
      ((ByteText.lines metadata).map comment) (writtenLines after) := by
  refine ⟨rfl, forall_mem_map.mpr fun line _ => isComment_comment line, ?_⟩
  unfold writtenLines
  split
  · decide
  · exact isBlock.last

lemma repeatsBlock_writtenLines (after : List Line) :
    repeatsBlock (writtenLines after) none = repeatsBlock after none := by
  unfold writtenLines
  split
  next empty =>
    rw [empty]
    decide
  next => rfl

variable {contents : List UInt8} {tag : ScriptTag}

lemma Located.rewritten {text : List UInt8}
    (located : Located contents tag.prelude text) (metadata : List UInt8) :
    Located (Scripts.rewritten tag metadata) tag.prelude
      (serializeMetadata metadata ++ tag.postlude) :=
  ⟨append_assoc .., located.boundary, located.unmentioned⟩

/-- No line behind the block has a carriage return at its end once its terminator is
removed. -/
def KeepsLines (contents : List UInt8) : Prop :=
  ∀ prelude text block after, Located contents prelude text ->
    Block (lines text) block after -> ∀ line ∈ after, ¬EndsInCr line

lemma parse_rewritten (parsed : parse contents = .ok (some tag)) (keeps : KeepsLines contents)
    (valid : isUtf8 metadata) (unixLines : cr ∉ metadata) :
    parse (rewritten tag metadata) =
      .ok (some ⟨tag.prelude, joinLines (lines metadata), tag.postlude⟩) := by
  have utf8 := (exists_located_of_parse parsed).1
  rcases exists_block_of_parse parsed with ⟨text, block, after, located, isBlock, single, behind⟩
  have first : (lines text).head? = some opening := by
    rw [isBlock.parts]
    rfl
  have halves := located.halves utf8 (prefix_of_head_lines first)
  have singles : ∀ line ∈ writtenLines after, lf ∉ line :=
    forall_mem_writtenLines (by decide) fun line mem => (mem_lines (isBlock.mem_lines mem)).1
  have kept : (writtenLines after).map chomp = writtenLines after := by
    refine (map_congr_left fun line mem => chomp_of_not_endsInCr ?_).trans (map_id' _)
    exact forall_mem_writtenLines (by decide) (keeps _ text block after located isBlock) line mem
  have written : lines (serializeMetadata metadata ++ tag.postlude) =
      opening :: ((lines metadata).map comment ++ closing :: writtenLines after) := by
    rw [behind, joinLines_eq_unlines, lines_serializeMetadata unixLines singles, kept]
  have validBehind : isUtf8 tag.postlude := by
    rw [behind, joinLines_eq_unlines]
    exact isUtf8_unlines (forall_mem_writtenLines (by decide) fun line mem =>
      isUtf8_lines halves.2 (isBlock.mem_lines mem))
  have whole : isUtf8 (rewritten tag metadata) :=
    isUtf8_append (isUtf8_append halves.1 (isUtf8_serializeMetadata valid)) validBehind
  rw [(located.rewritten metadata).parse whole (by rw [written]; rfl), written,
    (isBlock.written metadata).parseLines, repeatsBlock_writtenLines, single]
  have uncommented : ((lines metadata).map comment).map (drop 2) = lines metadata := by
    rw [map_map]
    exact (map_congr_left fun line _ => drop_comment line).trans (map_id' _)
  rw [uncommented, behind]
  simp only [Bool.false_eq_true, if_false, Except.map, joinLines_writtenLines]

/-! ## Carriage returns that are lost -/

/-- Of two closing pragmas behind comments, the grammar takes the later one. -/
lemma Block.suffix {lines block seen rest : List Line} (isBlock : Block lines block after)
    (parts : lines = opening :: (seen ++ closing :: rest))
    (comments : ∀ line ∈ seen, IsComment line) : after <:+ rest := by
  have same := (cons.inj (isBlock.parts.symm.trans parts)).2
  rcases append_eq_append_iff.mp same with ⟨middle, rfl, tail⟩ | ⟨middle, rfl, tail⟩
  · cases middle with
    | nil => rw [(cons.inj tail).2]
    | cons first middle =>
      have behind : after = middle ++ closing :: rest := (cons.inj tail).2
      refine absurd ?_ isBlock.last
      rw [behind, takeWhile_append_of_pos, takeWhile_cons_of_pos (by decide)]
      · simp
      · intro line mem
        simpa using comments line (by simp [mem])
  · cases middle with
    | nil => rw [(cons.inj tail).2]
    | cons first middle =>
      have behind : rest = middle ++ closing :: after := (cons.inj tail).2
      exact ⟨middle ++ [closing], by simp [behind]⟩

lemma length_unlines_append (first second : List Line) :
    (unlines (first ++ second)).length = (unlines first).length + (unlines second).length := by
  simp [unlines]

lemma length_unlines_map_chomp_le (after : List Line) :
    (unlines (after.map chomp)).length <= (unlines after).length := by
  induction after with
  | nil => exact le_rfl
  | cons line after ih =>
    have shorter := length_chomp_le line
    simp only [map_cons, unlines_cons, length_append, length_cons]
    omega

lemma length_unlines_map_chomp_lt (mem : line ∈ after)
    (loses : EndsInCr line) : (unlines (after.map chomp)).length < (unlines after).length := by
  rcases append_of_mem mem with ⟨front, back, rfl⟩
  have shorter := length_chomp_lt loses
  have first := length_unlines_map_chomp_le front
  have second := length_unlines_map_chomp_le back
  simp only [map_append, map_cons, length_unlines_append, unlines_cons, length_append, length_cons]
  omega

/-- Lines behind a block that are read from the lines as they were written are shorter
than those if a carriage return was at the end of one. -/
lemma length_joinLines_lt {behind : List Line} (mem : line ∈ after)
    (loses : EndsInCr line) (read : behind <:+ after.map chomp) :
    (joinLines behind).length < (joinLines after).length := by
  have nonempty : after ≠ [] := ne_nil_of_mem mem
  rw [joinLines_eq nonempty]
  have shorter := length_unlines_map_chomp_lt mem loses
  by_cases empty : behind = []
  · rcases append_of_mem mem with ⟨front, back, rfl⟩
    have positive := (Nat.zero_le _).trans_lt (length_chomp_lt loses)
    rw [empty, length_unlines_append, unlines_cons]
    simp only [joinLines, length_append, length_cons]
    simp
    omega
  · rw [joinLines_eq empty]
    rcases read with ⟨front, parts⟩
    rw [<- parts, length_unlines_append] at shorter
    omega

/-- A tag has what is in front of the block, in it and behind it. -/
lemma tag_of_block {prelude text : List UInt8}
    {block : List Line} (parsed : parse contents = .ok (some tag))
    (located : Located contents prelude text) (isBlock : Block (lines text) block after) :
    tag = ⟨prelude, joinLines (block.map (List.drop 2)), joinLines after⟩ := by
  have utf8 := (exists_located_of_parse parsed).1
  rw [located.parse utf8 (by rw [isBlock.parts]; rfl), isBlock.parseLines] at parsed
  split at parsed
  next => cases parsed
  next => exact (Option.some.inj (Except.ok.inj parsed)).symm

/-- A script that a tag was read from can be rewritten with any metadata exactly when no
carriage return is at the end of a line behind its block. -/
theorem parse_rewritten_iff {contents : List UInt8} {tag : ScriptTag}
    (parsed : parse contents = .ok (some tag)) :
    (∀ metadata, isUtf8 metadata = true -> metadata ≠ [] -> cr ∉ metadata ->
      ∃ again, parse (rewritten tag metadata) = .ok (some again) /\
        again.prelude = tag.prelude /\ lines again.metadata = lines metadata /\
        again.postlude = tag.postlude) <->
      KeepsLines contents := by
  constructor
  · intro roundTrips prelude text block after located isBlock line mem loses
    rcases roundTrips [97] (by decide) (by decide) (by decide) with
      ⟨again, reparsed, samePrelude, _, samePostlude⟩
    rw [tag_of_block parsed located isBlock] at reparsed samePrelude samePostlude
    rcases exists_block_of_parse reparsed with
      ⟨newText, newBlock, newAfter, newLocated, newIsBlock, _, behind⟩
    have tail : newText = serializeMetadata [97] ++ unlines after := by
      have parts := newLocated.parts
      rw [samePrelude, rewritten, append_assoc, joinLines_eq (ne_nil_of_mem mem)] at parts
      exact (append_cancel_left parts).symm
    have parts : lines newText =
        opening :: ((lines [97]).map comment ++ closing :: after.map chomp) := by
      rw [tail, lines_serializeMetadata (by decide)
        fun line mem => (mem_lines (isBlock.mem_lines mem)).1]
    have read := newIsBlock.suffix parts
      (forall_mem_map.mpr fun line _ => isComment_comment line)
    -- The lines read back are shorter than those that were written.
    have shorter := length_joinLines_lt mem loses read
    rw [<- behind, samePostlude] at shorter
    exact lt_irrefl _ shorter
  · intro keeps metadata valid nonempty unixLines
    refine ⟨_, parse_rewritten parsed keeps valid unixLines, rfl, ?_, rfl⟩
    rw [joinLines_eq (lines_ne_nil nonempty), lines_unlines fun line mem => (mem_lines mem).1]
    refine (map_congr_left fun line mem => chomp_of_not_endsInCr ?_).trans (map_id' _)
    exact not_endsInCr_of_not_mem fun inside => unixLines ((mem_lines mem).2 cr inside)

/-- A block without content and a line that ends in a carriage return. -/
def returnScript : List UInt8 := unlines [opening, closing] ++ [120, cr]

/-- The tag that is read from it. -/
def returnTag : ScriptTag := ⟨[], [lf], [120, cr, lf]⟩

theorem parse_rewritten_returnScript :
    parse returnScript = .ok (some returnTag) /\
      parse (rewritten returnTag [97]) = .ok (some ⟨[], [97, lf], [120, lf]⟩) := by
  decide +kernel

lemma keepsLines_of_not_mem
    (parsed : parse contents = .ok (some tag)) (absent : cr ∉ tag.postlude) :
    KeepsLines contents := by
  intro prelude text block after located isBlock line mem loses
  refine absent ?_
  rw [tag_of_block parsed located isBlock, joinLines_eq (ne_nil_of_mem mem)]
  exact mem_flatMap.mpr
    ⟨line, mem, mem_append_left _ (mem_of_getLast? loses)⟩

theorem rewritten_shortScript :
    ∃ again, parse (rewritten ⟨[120, lf], [97, lf], [121, lf]⟩ [98]) = .ok (some again) /\
        again.prelude = [120, lf] /\ lines again.metadata = lines [98] /\
        again.postlude = [121, lf] := by
  have parsed : parse shortScript = .ok (some ⟨[120, lf], [97, lf], [121, lf]⟩) := by
    decide +kernel
  exact (parse_rewritten_iff parsed).mpr (keepsLines_of_not_mem parsed (by decide))
    [98] (by decide) (by decide) (by decide)

end Uv.Scripts
