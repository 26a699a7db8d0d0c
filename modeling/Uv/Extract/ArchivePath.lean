import Uv.Library.UnixPath

namespace Uv.Extract

open Library UnixPath List Option

/-!
# Paths of archive members

The name of a member is normalised before anything is written: `..` removes the
component before it, and a name that leaves the extraction root has no path.  Names
that are already normalised are recognised by their length and taken as they are.
-/

/-- Why a name is rejected. -/
inductive NameError where
  | emptyFilename
  | unacceptableFilename (filename : String)
  deriving DecidableEq, Repr

section

variable (isOther : Char -> Bool)

/-- Names are not empty and have no characters of the category `C`. -/
def validateArchiveMemberName (name : String) : Except NameError Unit :=
  if name.isEmpty then .error .emptyFilename
  else if name.toList.any isOther then
    .error (.unacceptableFilename (String.ofList (name.toList.map fun char =>
      if isOther char then '�' else char)))
  else .ok ()

end

/-- The bytes of a string. -/
def stringBytes (string : String) : List UInt8 := string.toUTF8.data.toList

variable (source : UnixPath)

/-- The length of the components with their separators, if all of them are normal. -/
def normalizedLength : Option Nat :=
  (components source).foldlM
    (fun length component =>
      match component with
      | .normal name => some (length + name.1.length + 1)
      | _ => none)
    0

/-- The loop that rebuilds the path. -/
def rebuild : UnixPath -> List Component -> Option UnixPath
  | path, [] => some path
  | _, .rootDir :: _ => none
  | path, .parentDir :: rest =>
    let popped := pop path
    if popped.2 then rebuild popped.1 rest else none
  | path, .normal component :: rest => rebuild (push path component.1) rest
  | path, .curDir :: rest => rebuild path rest

/-- The path that the loop gives, unless it became absolute. -/
def rebuilt : Option UnixPath :=
  match rebuild [] (components source) with
  | none => none
  | some path => if (components path).head? = some .rootDir then none else some path

/-- The name needs no rebuilding. -/
def isNormalized : Bool :=
  normalizedLength source == some (source.length + 1)

/-- The path of an archive member, or `none` if it escapes the extraction root. -/
def fromArchiveMember (isOther : Char -> Bool) (fileName : String) :
    Except NameError (Option UnixPath) := do
  validateArchiveMemberName isOther fileName
  let source := stringBytes fileName
  if isNormalized source then return some source
  return rebuilt source

/-! ## Lexical resolution -/

variable (directory : List Name)

/-- The directory that a part of a name leads to.  Nothing is above the root. -/
def resolvePart (part : List UInt8) : Option (List Name) :=
  if part = [dot, dot] then
    match directory.reverse with
    | [] => none
    | _ :: before => some before.reverse
  else if valid : IsName part then some (directory ++ [⟨part, valid⟩])
  else some directory

/-- Where a name leads to, part by part, from the extraction root. -/
def lexicalResolution : Option (List Name) :=
  if isAbsolute source then none else (parts source).foldlM resolvePart []

/-- The path of a directory below the extraction root. -/
def written : UnixPath := render false (directory.map .normal)

lemma isStep_of_mem_map_normal {directory : List Name} {component : Component}
    (mem : component ∈ directory.map Component.normal) : component.IsStep := by
  rcases mem_map.mp mem with ⟨name, _, rfl⟩
  trivial

lemma components_written :
    components (written directory) = directory.map .normal :=
  components_render (fun _ => isStep_of_mem_map_normal) false

lemma push_written (name : Name) :
    push (written directory) name.1 = written (directory ++ [name]) := by
  rw [written, written, map_append]
  exact @push_render (.normal name) _ (fun _ => isStep_of_mem_map_normal) false trivial

lemma pop_written (name : Name) :
    pop (written (directory ++ [name])) = (written directory, true) := by
  rw [written, written, map_append]
  exact @pop_render (.normal name) _ (fun _ => isStep_of_mem_map_normal) false trivial

variable (list : List (List UInt8))

/-- The loop follows the parts of the name, as long as they stay below the root. -/
lemma rebuild_written (directory : List Name) :
    rebuild (written directory) (list.filterMap parsePart) =
      (list.foldlM resolvePart directory).map written := by
  induction list generalizing directory with
  | nil => rfl
  | cons part rest ih =>
    rw [foldlM_cons]
    by_cases up : part = [dot, dot]
    · rw [filterMap_cons_some (parsePart_of_eq up), rebuild, resolvePart, if_pos up]
      rcases eq_nil_or_concat' directory with rfl | ⟨before, last, rfl⟩
      · rfl
      · rw [pop_written, if_pos rfl, ih, reverse_concat]
        simp only [reverse_reverse, bind_eq_bind, bind_some]
    · by_cases valid : IsName part
      · rw [filterMap_cons_some (parsePart_of_isName valid), rebuild, push_written, ih, resolvePart, if_neg up,
          dif_pos valid, bind_eq_bind, bind_some]
      · rw [filterMap_cons_none (parsePart_of_not up valid), ih, resolvePart, if_neg up, dif_neg valid,
          bind_eq_bind, bind_some]

lemma rebuild_components :
    rebuild [] (components source) = (lexicalResolution source).map written := by
  rw [components, leading, lexicalResolution]
  split
  · rfl
  · have body := rebuild_written (parts source) []
    split
    · exact body
    · exact body

/-- Rebuilding is lexical resolution. -/
lemma rebuilt_eq :
    rebuilt source = (lexicalResolution source).map written := by
  rw [rebuilt, rebuild_components]
  cases lexicalResolution source with
  | none => rfl
  | some directory =>
    have relative : (components (written directory)).head? ≠ some .rootDir := by
      rw [components_written]
      cases directory with
      | nil => exact nofun
      | cons name rest => exact nofun
    exact if_neg relative

/-! ## Names that are taken as they are -/

lemma foldlM_normalizedLength (list : List Component) (start total : Nat)
    (sum : list.foldlM (fun length component =>
      match component with
      | .normal name => some (length + name.1.length + 1)
      | _ => none) start = some total) :
    ∃ directory : List Name, list = directory.map .normal /\
      total = start + lengthWithSeps (list.map Component.bytes) := by
  induction list generalizing start with
  | nil => exact ⟨[], rfl, (some.inj sum).symm⟩
  | cons component rest ih =>
    rw [foldlM_cons, bind_eq_bind] at sum
    cases component with
    | normal name =>
      rcases ih _ sum with ⟨directory, rfl, rfl⟩
      refine ⟨name :: directory, rfl, ?_⟩
      simp only [lengthWithSeps, map_cons, sum_cons, Component.bytes]
      omega
    | rootDir => cases sum
    | curDir => cases sum
    | parentDir => cases sum

/-- If the lengths agree, the separators of the name are exactly those between its
components. -/
lemma eq_written_of_isNormalized {source : UnixPath} (normalized : isNormalized source) :
    ∃ directory, source = written directory := by
  rcases foldlM_normalizedLength _ 0 _ (beq_iff_eq.mp normalized) with ⟨directory, shape, total⟩
  refine ⟨directory, ?_⟩
  have noLeading : leading source = [] := by
    unfold components leading at shape
    unfold leading
    split at shape
    · cases directory <;> cases shape
    · split at shape
      · cases directory <;> cases shape
      next absolute dotted => rw [if_neg absolute, if_neg dotted]
  have bodyShape : body source = directory.map .normal := by
    rwa [components, noLeading, nil_append] at shape
  rw [shape, <- bodyShape, <- lengthWithSeps_parts, Nat.zero_add] at total
  have all := (lengthWithSeps_filterMap (parts source)).2 total.symm
  rw [written, <- bodyShape, render, body, all, parts, intercalate_splitOn]
  rfl

lemma rebuilt_of_isNormalized {source : UnixPath} (normalized : isNormalized source) :
    rebuilt source = some source := by
  rcases eq_written_of_isNormalized normalized with ⟨directory, rfl⟩
  have loop : ∀ before rest : List Name,
      rebuild (written before) (rest.map .normal) = some (written (before ++ rest)) := by
    intro before rest
    induction rest generalizing before with
    | nil => rw [append_nil]; rfl
    | cons name rest ih =>
      rw [map_cons, rebuild, push_written, ih, append_assoc, singleton_append]
  rw [rebuilt_eq, <- rebuild_components, components_written]
  exact loop [] directory

/-! ## Leaving the extraction root -/

/-- The name starts at the root of the file system, or after some of its parts it has gone
up more often than down. -/
def Escapes : Prop :=
  isAbsolute source = true \/
    ∃ count, descents ((parts source).take count) < ascents ((parts source).take count)

lemma foldlM_resolvePart_eq_none_iff (directory : List Name) :
    list.foldlM resolvePart directory = none <-> ∃ count,
      directory.length + descents (list.take count) < ascents (list.take count) := by
  induction list generalizing directory with
  | nil =>
    refine ⟨nofun, fun ⟨count, less⟩ => ?_⟩
    rw [take_nil] at less
    cases less
  | cons part rest ih =>
    have shift : (∃ count,
        directory.length + descents ((part :: rest).take count) < ascents ((part :: rest).take count)) <->
        ∃ count, directory.length + descents (part :: rest.take count) <
          ascents (part :: rest.take count) := by
      refine ⟨fun ⟨count, less⟩ => ?_, fun ⟨count, less⟩ => ⟨count + 1, less⟩⟩
      cases count with
      | zero => cases less
      | succ count => exact ⟨count, less⟩
    rw [shift, foldlM_cons]
    by_cases up : part = [dot, dot]
    · have notName : ¬ IsName part := fun valid => valid.2.2.2 up
      simp only [resolvePart, if_pos up, descents, ascents, countP_cons, decide_eq_true up,
        decide_eq_false notName, if_true, Bool.false_eq_true, if_false]
      rcases eq_nil_or_concat' directory with rfl | ⟨before, last, rfl⟩
      · refine ⟨fun _ => ⟨0, by simp⟩, fun _ => rfl⟩
      · rw [reverse_concat, length_append, length_singleton]
        simp only [reverse_reverse, bind_eq_bind, bind_some]
        rw [ih]
        refine exists_congr fun count => ?_
        simp only [descents, ascents]
        omega
    · by_cases valid : IsName part
      · simp only [resolvePart, if_neg up, dif_pos valid, descents, ascents, countP_cons,
          decide_eq_true valid, decide_eq_false up, if_true, Bool.false_eq_true, if_false,
          bind_eq_bind, bind_some]
        rw [ih]
        refine exists_congr fun count => ?_
        simp only [length_append, length_singleton, descents, ascents]
        omega
      · simp only [resolvePart, if_neg up, dif_neg valid, descents, ascents, countP_cons,
          decide_eq_false valid, decide_eq_false up, Bool.false_eq_true, if_false,
          bind_eq_bind, bind_some, Nat.add_zero]
        exact ih directory

lemma lexicalResolution_eq_none_iff :
    lexicalResolution source = none <-> Escapes source := by
  rw [lexicalResolution, Escapes]
  split
  next absolute => exact ⟨fun _ => .inl absolute, fun _ => rfl⟩
  next relative =>
    rw [foldlM_resolvePart_eq_none_iff, or_iff_right relative]
    simp only [length_nil, Nat.zero_add]

/-- Whatever is extracted, the result is the rebuilt path. -/
lemma fromArchiveMember_cases (isOther : Char -> Bool) (fileName : String) :
    (∃ error, fromArchiveMember isOther fileName = .error error) \/
      fromArchiveMember isOther fileName = .ok (rebuilt (stringBytes fileName)) := by
  unfold fromArchiveMember
  cases validateArchiveMemberName isOther fileName with
  | error error => exact .inl ⟨error, rfl⟩
  | ok _ =>
    right
    by_cases normalized : isNormalized (stringBytes fileName)
    · rw [rebuilt_of_isNormalized normalized]
      exact if_pos normalized
    · exact if_neg normalized

/-- The path of a member is relative, has only normal components and is where the name
lexically leads to.  Names that are taken as they are would be rebuilt to themselves.  A
name that leaves the extraction root at any of its parts has no path. -/
theorem fromArchiveMember_safe (isOther : Char -> Bool) (fileName : String) :
    (∀ path, fromArchiveMember isOther fileName = .ok (some path) -> isAbsolute path = false /\
      (∀ component ∈ components path, ∃ name, component = .normal name) /\
      ∃ directory, lexicalResolution (stringBytes fileName) = some directory /\
        path = render false (directory.map .normal)) /\
    (isNormalized (stringBytes fileName) = true ->
      rebuilt (stringBytes fileName) = some (stringBytes fileName)) /\
    (Escapes (stringBytes fileName) -> ∀ path,
      fromArchiveMember isOther fileName ≠ .ok (some path)) := by
  have resolved : ∀ path, fromArchiveMember isOther fileName = .ok (some path) ->
      ∃ directory, lexicalResolution (stringBytes fileName) = some directory /\
        path = written directory := by
    intro path accepted
    rcases fromArchiveMember_cases isOther fileName with ⟨error, failed⟩ | rebuilds
    · cases failed.symm.trans accepted
    · have same := Except.ok.inj (rebuilds.symm.trans accepted)
      rw [rebuilt_eq, map_eq_some_iff] at same
      rcases same with ⟨directory, resolution, rfl⟩
      exact ⟨directory, resolution, rfl⟩
  refine ⟨fun path accepted => ?_, rebuilt_of_isNormalized, fun escapes path accepted => ?_⟩
  · rcases resolved path accepted with ⟨directory, resolution, rfl⟩
    refine ⟨isAbsolute_intercalate fun _ => isStep_of_mem_map_normal, fun component mem => ?_,
      directory, resolution, rfl⟩
    rw [components_written] at mem
    rcases mem_map.mp mem with ⟨name, _, rfl⟩
    exact ⟨name, rfl⟩
  · rcases resolved path accepted with ⟨directory, resolution, _⟩
    rw [(lexicalResolution_eq_none_iff _).mpr escapes] at resolution
    cases resolution

end Uv.Extract
