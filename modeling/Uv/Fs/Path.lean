import Uv.Library.UnixPath

namespace Uv.Fs

open Library UnixPath List Component

/-!
# Normalising paths

`normalize_path` removes `.`, inner `..` and redundant separators, and keeps the `..`
that lead above the start of the path.  `normalize_path_under` also asks that the
result lies below a root, by comparing components.
-/

/-- The length that the components would have as a path, and whether the next one needs a
separator. -/
def expectedLength : List Component -> Bool -> Nat
  | [], _ => 0
  | component :: rest, nextNeedsSeparator =>
    (if nextNeedsSeparator && component != .rootDir then 1 else 0) + component.bytes.length +
      expectedLength rest (component != .rootDir)

variable (path : UnixPath)

/-- The components leave out no byte of the path. -/
def pathEqualsComponents : Bool :=
  expectedLength (components path) false == path.length

/-- The loop that rebuilds a path. -/
def normalizedLoop : UnixPath -> List Component -> UnixPath
  | buffer, [] => buffer
  | buffer, .parentDir :: rest =>
    match (components buffer).getLast? with
    -- Leading `..`, and those above the root, are kept.
    | none | some .parentDir | some .rootDir =>
      normalizedLoop (push buffer Component.parentDir.bytes) rest
    | some (.normal _) | some .curDir => normalizedLoop (pop buffer).1 rest
  | buffer, .curDir :: rest => normalizedLoop buffer rest
  | buffer, .rootDir :: rest => normalizedLoop (push buffer Component.rootDir.bytes) rest
  | buffer, .normal name :: rest => normalizedLoop (push buffer name.1) rest

def normalized : UnixPath := normalizedLoop [] (components path)

def normalizePath : UnixPath :=
  if (components path).any fun component => component == .parentDir || component == .curDir then
    normalized path
  else if !pathEqualsComponents path then normalized path
  else path

/-- The normalised path, if it is strictly under a root. -/
def normalizePathUnder (path root : UnixPath) : Option UnixPath :=
  let path := normalizePath path
  let root := normalizePath root
  if root.isEmpty || components path == components root then none
  else if startsWith path root then some path
  else none

/-! ## Normal forms -/

/-- Some `..`, and then names. -/
structure NormalForm where
  ups : Nat
  names : List Name

namespace NormalForm

def steps (form : NormalForm) : List Component :=
  List.replicate form.ups .parentDir ++ form.names.map .normal

/-- Follow a part of a path. -/
def follow (form : NormalForm) (part : List UInt8) : NormalForm :=
  if part = [dot, dot] then
    match form.names.reverse with
    | [] => ⟨form.ups + 1, []⟩
    | _ :: before => ⟨form.ups, before.reverse⟩
  else if valid : IsName part then ⟨form.ups, form.names ++ [⟨part, valid⟩]⟩
  else form

/-- The normal form of the parts of a path. -/
def ofParts (list : List (List UInt8)) : NormalForm := list.foldl follow ⟨0, []⟩

lemma isStep {form : NormalForm} {component : Component} (mem : component ∈ form.steps) :
    component.IsStep := by
  rcases mem_append.mp mem with mem | mem
  · rw [eq_of_mem_replicate mem]
    trivial
  · rcases mem_map.mp mem with ⟨name, _, rfl⟩
    trivial

lemma steps_concat (ups : Nat) (names : List Name) (name : Name) :
    (⟨ups, names ++ [name]⟩ : NormalForm).steps = (⟨ups, names⟩ : NormalForm).steps ++ [.normal name] := by
  simp only [steps, map_append, map_singleton, append_assoc]

lemma steps_succ (ups : Nat) :
    (⟨ups + 1, []⟩ : NormalForm).steps = (⟨ups, []⟩ : NormalForm).steps ++ [.parentDir] := by
  simp only [steps, map_nil, append_nil, replicate_succ']

/-- Nothing that ends in `..` or at the root is popped. -/
lemma getLast_steps_nil (absolute : Bool) (ups : Nat) :
    (components (render absolute (⟨ups, []⟩ : NormalForm).steps)).getLast? = none \/
    (components (render absolute (⟨ups, []⟩ : NormalForm).steps)).getLast? = some .parentDir \/
    (components (render absolute (⟨ups, []⟩ : NormalForm).steps)).getLast? = some .rootDir := by
  rw [components_render fun _ => isStep]
  cases ups with
  | zero =>
    cases absolute with
    | true => exact .inr (.inr rfl)
    | false => exact .inl rfl
  | succ ups =>
    rw [steps_succ, <- append_assoc, getLast?_concat]
    exact .inr (.inl rfl)

end NormalForm

open NormalForm

/-- The loop computes the normal form. -/
lemma normalizedLoop_render (list : List (List UInt8)) (absolute : Bool) (form : NormalForm) :
    normalizedLoop (render absolute form.steps) (list.filterMap parsePart) =
      render absolute (list.foldl NormalForm.follow form).steps := by
  induction list generalizing form with
  | nil => rfl
  | cons part rest ih =>
    rw [foldl_cons]
    by_cases up : part = [dot, dot]
    · rw [filterMap_cons_some (parsePart_of_eq up), follow, if_pos up, normalizedLoop]
      rcases form with ⟨ups, names⟩
      rcases eq_nil_or_concat' names with rfl | ⟨before, last, rfl⟩
      · have pushed := @push_render .parentDir _ (fun _ => @isStep ⟨ups, []⟩ _) absolute
          trivial
        rw [<- steps_succ] at pushed
        have next := ih ⟨ups + 1, []⟩
        rcases getLast_steps_nil absolute ups with last | last | last <;>
          rw [last, pushed] <;> exact next
      · have last' : (components (render absolute (⟨ups, before ++ [last]⟩ : NormalForm).steps)).getLast? =
            some (.normal last) := by
          rw [components_render fun _ => isStep, steps_concat,
            <- append_assoc, getLast?_concat]
        rw [last', steps_concat, @pop_render (.normal last) _ (fun _ => isStep) absolute trivial]
        simp only [reverse_concat, reverse_reverse]
        exact ih ⟨ups, before⟩
    · by_cases valid : IsName part
      · rw [filterMap_cons_some (parsePart_of_isName valid), follow, if_neg up, dif_pos valid,
          normalizedLoop]
        have pushed := @push_render (.normal ⟨part, valid⟩) _ (fun _ => @isStep form _) absolute
          trivial
        rw [<- steps_concat] at pushed
        rw [<- ih]
        exact congrArg (normalizedLoop · _) pushed
      · rw [filterMap_cons_none (parsePart_of_not up valid), follow, if_neg up, dif_neg valid, ih]

/-- The normal form of a path. -/
def normalForm : NormalForm := .ofParts (parts path)

lemma normalized_eq :
    normalized path = render (isAbsolute path) (normalForm path).steps := by
  rw [normalized, components, leading]
  cases absolute : isAbsolute path with
  | true => exact normalizedLoop_render (parts path) true ⟨0, []⟩
  | false =>
    have loop := normalizedLoop_render (parts path) false ⟨0, []⟩
    split
    next impossible => cases impossible
    · split
      · exact loop
      · exact loop

/-! ## The fast path -/

section

variable {steps : List Component} (all : ∀ component ∈ steps, component.IsStep)

include all

lemma expectedLength_true : expectedLength steps true = lengthWithSeps (steps.map Component.bytes) := by
  induction steps with
  | nil => rfl
  | cons component rest ih =>
    rw [expectedLength, (all component mem_cons_self).bne_rootDir,
      ih (forall_mem_cons.mp all).2]
    simp only [lengthWithSeps, map_cons, sum_cons, Bool.and_self, if_true]
    omega

lemma expectedLength_false (nonempty : steps ≠ []) :
    expectedLength steps false + 1 = lengthWithSeps (steps.map Component.bytes) := by
  rcases exists_cons_of_ne_nil nonempty with ⟨component, rest, rfl⟩
  rw [expectedLength, (all component mem_cons_self).bne_rootDir,
    expectedLength_true (forall_mem_cons.mp all).2]
  simp only [lengthWithSeps, map_cons, sum_cons, Bool.false_and, Bool.false_eq_true, if_false]
  omega

end

/-- A path whose length is that of its components is written without redundant bytes. -/
lemma eq_intercalate_of_length (rest : UnixPath)
    (equal : expectedLength (body rest) false = rest.length) :
    rest = [sep].intercalate ((body rest).map Component.bytes) := by
  by_cases empty : body rest = []
  · rw [empty] at equal ⊢
    exact length_eq_zero_iff.mp equal.symm
  · have total := expectedLength_false (fun _ => isStep_of_mem_body) empty
    rw [equal, <- lengthWithSeps_parts] at total
    have all := (lengthWithSeps_filterMap (parts rest)).2 total.symm
    rw [body, all, parts, intercalate_splitOn]

lemma foldl_follow_names {list : List (List UInt8)} {names : List Name}
    (parsed : list.filterMap parsePart = names.map .normal) (ups : Nat) (before : List Name) :
    list.foldl NormalForm.follow ⟨ups, before⟩ = ⟨ups, before ++ names⟩ := by
  induction list generalizing before names with
  | nil =>
    cases names with
    | nil => rw [append_nil]; rfl
    | cons name names => cases parsed
  | cons part rest ih =>
    rw [foldl_cons]
    by_cases up : part = [dot, dot]
    · rw [filterMap_cons_some (parsePart_of_eq up)] at parsed
      cases names <;> cases parsed
    · by_cases valid : IsName part
      · rw [filterMap_cons_some (parsePart_of_isName valid)] at parsed
        cases names with
        | nil => cases parsed
        | cons name names =>
          rw [map_cons, cons.injEq] at parsed
          rw [follow, if_neg up, dif_pos valid, ih parsed.2, append_assoc,
            singleton_append, normal.inj parsed.1]
      · rw [filterMap_cons_none (parsePart_of_not up valid)] at parsed
        rw [follow, if_neg up, dif_neg valid, ih parsed]

variable (path : UnixPath)

/-- Normalising gives the normal form, also where the path is returned as it is. -/
lemma normalizePath_eq :
    normalizePath path = render (isAbsolute path) (normalForm path).steps := by
  unfold normalizePath
  split
  · exact normalized_eq path
  next plain =>
    split
    · exact normalized_eq path
    next equal =>
      have names : ∃ names : List Name, body path = names.map .normal := by
        refine exists_map_normal fun component mem => ⟨isStep_of_mem_body mem, fun parent => plain ?_⟩
        exact any_eq_true.mpr ⟨component, mem_append_right _ mem, by rw [parent]; rfl⟩
      rcases names with ⟨names, shape⟩
      have form : normalForm path = ⟨0, names⟩ := foldl_follow_names shape 0 []
      have length : expectedLength (components path) false = path.length := by
        simpa [pathEqualsComponents] using equal
      rw [form, steps, replicate_zero, nil_append, <- shape, render]
      cases absolute : isAbsolute path with
      | true =>
        rcases isAbsolute_iff.mp absolute with ⟨rest, rfl⟩
        have tail : expectedLength (body rest) false = rest.length := by
          rw [components, leading, if_pos absolute, body_sep_cons] at length
          have shift : expectedLength ([.rootDir] ++ body rest) false =
              1 + expectedLength (body rest) false := by
            simp [expectedLength, bytes]
          rw [shift, length_cons] at length
          omega
        rw [body_sep_cons]
        exact congrArg (sep :: ·) (eq_intercalate_of_length rest tail)
      | false =>
        have noDot : (parts path).head? ≠ some [dot] := fun dotted => plain (by
          rw [components, leading, if_neg (Bool.eq_false_iff.mp absolute), if_pos dotted]
          rfl)
        rw [components, leading, if_neg (Bool.eq_false_iff.mp absolute), if_neg noDot,
          nil_append] at length
        exact eq_intercalate_of_length path length

/-! ## Paths under a root -/

/-- The `..` of a normal form are those that climb above the start, and the rest balances. -/
lemma foldl_follow_spec (list : List (List UInt8)) (form : NormalForm) :
    (list.foldl NormalForm.follow form).ups = form.ups + (climb list - form.names.length) /\
    (list.foldl NormalForm.follow form).names.length + form.ups + ascents list =
      form.names.length + (list.foldl NormalForm.follow form).ups + descents list := by
  induction list generalizing form with
  | nil => exact ⟨by simp [climb], by simp [ascents, descents]⟩
  | cons part rest ih =>
    rw [foldl_cons]
    rcases ih (form.follow part) with ⟨ups, balance⟩
    rw [ups] at balance ⊢
    simp only [climb, ascents, descents, countP_cons, decide_eq_true_eq] at balance ⊢
    by_cases up : part = [dot, dot]
    · have notName : ¬ IsName part := fun valid => valid.2.2.2 up
      rw [if_pos up, if_pos up, if_neg notName]
      rcases form with ⟨formUps, names⟩
      rcases eq_nil_or_concat' names with rfl | ⟨before, last, rfl⟩
      · simp only [follow, if_pos up, reverse_nil, length_nil] at balance ⊢
        omega
      · simp only [follow, if_pos up, reverse_concat, reverse_reverse,
          length_append, length_singleton] at balance ⊢
        omega
    · by_cases valid : IsName part
      · rw [if_neg up, if_pos valid, if_neg up, if_pos valid]
        simp only [follow, if_neg up, dif_pos valid, length_append, length_singleton] at balance ⊢
        omega
      · have same : form.follow part = form := by
          rw [follow, if_neg up, dif_neg valid]
        rw [if_neg up, if_neg valid, if_neg up, if_neg valid]
        rw [same] at balance ⊢
        omega

/-- The path leads to the highest directory that it passes. -/
def EndsAtTop : Prop :=
  ascents (parts path) = descents (parts path) + climb (parts path)

lemma normalForm_ups : (normalForm path).ups = climb (parts path) := by
  have spec := (foldl_follow_spec (parts path) ⟨0, []⟩).1
  simpa [normalForm, ofParts] using spec

lemma normalForm_names_eq_nil_iff :
    (normalForm path).names = [] <-> EndsAtTop path := by
  have ups := normalForm_ups path
  have balance := (foldl_follow_spec (parts path) ⟨0, []⟩).2
  simp only [length_nil, Nat.zero_add, Nat.add_zero] at balance
  rw [<- length_eq_zero_iff, EndsAtTop]
  simp only [normalForm, ofParts] at ups ⊢
  omega

namespace NormalForm

lemma count_parentDir (form : NormalForm) : form.steps.count .parentDir = form.ups := by
  have names : (form.names.map normal).count .parentDir = 0 := by
    refine count_eq_zero.mpr fun mem => ?_
    rcases mem_map.mp mem with ⟨name, _, equal⟩
    cases equal
  rw [steps, count_append, count_replicate_self, names, Nat.add_zero]

/-- No `..` stands behind a name. -/
lemma steps_pairwise (form : NormalForm) :
    form.steps.Pairwise fun before behind => before ≠ .parentDir -> behind ≠ .parentDir := by
  refine pairwise_append.mpr ⟨?_, ?_, ?_⟩
  · exact pairwise_replicate.mpr (.inr fun notParent => absurd rfl notParent)
  · exact pairwise_map.mpr (pairwise_of_forall fun _ _ _ => nofun)
  · intro before mem _ _ notParent
    exact absurd (eq_of_mem_replicate mem) notParent

end NormalForm

/-- The path is written as a normal form. -/
def IsNormalized : Prop :=
  ∃ absolute, ∃ form : NormalForm, path = render absolute form.steps

variable (path root : UnixPath)

/-- Without the components of the root, names are left of the path. -/
def IsBelow : Prop :=
  ∃ names : List Name, names ≠ [] /\
    components path = components (normalizePath root) ++ names.map .normal

/-- The root leads to its highest directory, and the path climbs above it. -/
def Overtakes : Prop :=
  isAbsolute path = isAbsolute root /\ (isAbsolute root = true \/ 0 < climb (parts root)) /\
    EndsAtTop root /\ climb (parts root) < climb (parts path)

lemma components_normalizePath (path : UnixPath) : components (normalizePath path) =
    (if isAbsolute path then [.rootDir] else []) ++ (normalForm path).steps := by
  rw [normalizePath_eq, components_render fun _ => isStep]

lemma normalizePath_eq_nil_iff (path : UnixPath) :
    normalizePath path = [] <-> components (normalizePath path) = [] := by
  refine ⟨fun empty => by rw [empty]; rfl, fun empty => ?_⟩
  rw [components_normalizePath, append_eq_nil_iff] at empty
  rw [normalizePath_eq, empty.2]
  cases absolute : isAbsolute path with
  | false => rfl
  | true =>
    rw [absolute] at empty
    cases empty.1

/-- One normal form starts like another one only if both or none is absolute. -/
lemma prefix_components_iff (rest : List Component)
    (nonempty : components (normalizePath root) ≠ []) :
    components (normalizePath path) = components (normalizePath root) ++ rest <->
      isAbsolute path = isAbsolute root /\ (normalForm path).steps = (normalForm root).steps ++ rest := by
  rw [components_normalizePath] at nonempty
  rw [components_normalizePath, components_normalizePath]
  cases isAbsolute path with
  | true =>
    cases rootAbsolute : isAbsolute root with
    | true => simp
    | false =>
      refine ⟨fun equal => ?_, nofun⟩
      rw [rootAbsolute] at nonempty
      rcases exists_cons_of_ne_nil nonempty with ⟨first, others, shape⟩
      have mem : rootDir ∈ (normalForm root).steps := by
        simp only [Bool.false_eq_true, if_false, nil_append] at equal shape
        rw [shape, if_pos trivial, singleton_append, cons_append] at equal
        rw [shape, <- (cons.inj equal).1]
        exact mem_cons_self
      exact (isStep mem).elim
  | false =>
    cases isAbsolute root with
    | true =>
      refine ⟨fun equal => ?_, nofun⟩
      have mem : rootDir ∈ (normalForm path).steps := by
        simp only [Bool.false_eq_true, if_false, nil_append] at equal
        rw [equal]
        exact mem_cons_self
      exact (isStep mem).elim
    | false => simp

/-- What is returned starts like the root and goes on with further components. -/
lemma normalizePathUnder_eq_some_iff (path root result : UnixPath) :
    normalizePathUnder path root = some result <->
      normalizePath path = result /\ components (normalizePath root) ≠ [] /\
      isAbsolute path = isAbsolute root /\
      ∃ rest, rest ≠ [] /\ (normalForm path).steps = (normalForm root).steps ++ rest := by
  unfold normalizePathUnder
  dsimp only
  by_cases empty : components (normalizePath root) = []
  · have nothing := (normalizePath_eq_nil_iff root).mpr empty
    simp only [nothing, List.isEmpty_nil, Bool.true_or, if_true]
    exact ⟨nofun, fun parts => absurd rfl parts.2.1⟩
  · have something := mt (normalizePath_eq_nil_iff root).mp empty
    have split : (∃ rest, rest ≠ [] /\
        components (normalizePath path) = components (normalizePath root) ++ rest) <->
        components (normalizePath path) ≠ components (normalizePath root) /\
          startsWith (normalizePath path) (normalizePath root) := by
      rw [startsWith, List.isPrefixOf_iff_prefix]
      constructor
      · rintro ⟨rest, nonempty, equal⟩
        rw [equal]
        exact ⟨fun same => nonempty (List.append_right_eq_self.mp same), List.prefix_append _ _⟩
      · rintro ⟨different, rest, equal⟩
        refine ⟨rest, fun nothing => different ?_, equal.symm⟩
        rw [<- equal, nothing, List.append_nil]
    have forms : (isAbsolute path = isAbsolute root /\ ∃ rest, rest ≠ [] /\
        (normalForm path).steps = (normalForm root).steps ++ rest) <->
        components (normalizePath path) ≠ components (normalizePath root) /\
          startsWith (normalizePath path) (normalizePath root) := by
      rw [<- split, <- exists_and_left]
      refine exists_congr fun rest => ?_
      rw [prefix_components_iff path root rest empty]
      exact and_left_comm
    rw [forms]
    simp only [List.isEmpty_iff, something, beq_iff_eq, Bool.or_eq_true, false_or]
    split
    next same => simp [same]
    next different =>
      split
      next starts => simp [different, starts, empty]
      next apart => simp [apart]

/-- If `..` is left behind the root, the root is only made of such components. -/
lemma overtakes_of_mem {path root : UnixPath} {rest : List Component}
    (rootNonempty : components (normalizePath root) ≠ [])
    (sameKind : isAbsolute path = isAbsolute root)
    (longer : (normalForm path).steps = (normalForm root).steps ++ rest)
    (left : Component.parentDir ∈ rest) : Overtakes path root := by
  have ordered := (normalForm path).steps_pairwise
  rw [longer, pairwise_append] at ordered
  have noNames : (normalForm root).names = [] := by
    refine eq_nil_iff_forall_not_mem.mpr fun name mem => ?_
    refine ordered.2.2 (.normal name) ?_ .parentDir left nofun rfl
    exact mem_append_right _ (mem_map_of_mem mem)
  have counts := congrArg (count parentDir) longer
  rw [count_append, count_parentDir, count_parentDir, normalForm_ups, normalForm_ups] at counts
  have positive := count_pos_iff.mpr left
  refine ⟨sameKind, ?_, (normalForm_names_eq_nil_iff root).mp noNames, by omega⟩
  rw [components_normalizePath, steps, noNames, normalForm_ups] at rootNonempty
  cases absolute : isAbsolute root with
  | true => exact .inl rfl
  | false =>
    refine .inr (Nat.pos_of_ne_zero fun zero => rootNonempty ?_)
    rw [absolute, zero]
    rfl

/-- The result lies below the root unless the path climbs above a root that leads to its own
highest directory. -/
theorem normalizePathUnder_below_iff (path root : UnixPath) :
    (∀ result, normalizePathUnder path root = some result ->
      IsNormalized result /\ IsBelow result root) <-> ¬ Overtakes path root := by
  constructor
  · rintro below ⟨sameKind, nonempty, atTop, higher⟩
    have noNames := (normalForm_names_eq_nil_iff root).mpr atTop
    rw [<- normalForm_ups, <- normalForm_ups] at higher
    have longer : (normalForm path).steps = (normalForm root).steps ++
        (⟨(normalForm path).ups - (normalForm root).ups, (normalForm path).names⟩ : NormalForm).steps := by
      rw [steps, steps, steps, noNames, map_nil, append_nil,
        <- append_assoc, <- replicate_add, Nat.add_sub_cancel' higher.le]
    have rest : (⟨(normalForm path).ups - (normalForm root).ups, (normalForm path).names⟩ :
        NormalForm).steps ≠ [] := by
      intro empty
      have count := count_parentDir
        ⟨(normalForm path).ups - (normalForm root).ups, (normalForm path).names⟩
      rw [empty, count_nil] at count
      dsimp only at count
      omega
    have rootNonempty : components (normalizePath root) ≠ [] := by
      rw [components_normalizePath]
      rcases nonempty with absolute | climbs
      · rw [absolute]
        exact cons_ne_nil _ _
      · intro empty
        have count := count_parentDir (normalForm root)
        rw [(append_eq_nil_iff.mp empty).2, normalForm_ups, count_nil] at count
        omega
    rcases (below _ ((normalizePathUnder_eq_some_iff path root _).mpr
      ⟨rfl, rootNonempty, sameKind, _, rest, longer⟩)).2 with ⟨names, _, remaining⟩
    have sameSteps := ((prefix_components_iff path root _ rootNonempty).mp remaining).2
    have counts := congrArg (count parentDir) sameSteps
    have noParents : (names.map normal).count .parentDir = 0 := by
      have count := count_parentDir ⟨0, names⟩
      rwa [steps, replicate_zero, nil_append] at count
    rw [count_append, count_parentDir, count_parentDir, noParents] at counts
    omega
  · intro bounded result returned
    rcases (normalizePathUnder_eq_some_iff path root result).mp returned with
      ⟨rfl, rootNonempty, sameKind, rest, nonempty, longer⟩
    refine ⟨⟨_, _, normalizePath_eq path⟩, ?_⟩
    have noParents : ∀ component ∈ rest, component ≠ .parentDir :=
      fun component mem isParent =>
        bounded (overtakes_of_mem rootNonempty sameKind longer (isParent ▸ mem))
    rcases exists_map_normal fun component mem => ⟨isStep (longer ▸ mem_append_right _ mem),
      noParents component mem⟩ with ⟨names, rfl⟩
    exact ⟨names, fun empty => nonempty (by rw [empty]; rfl),
      (prefix_components_iff path root _ rootNonempty).mpr ⟨sameKind, longer⟩⟩

/-- `../../x` is returned for the root `..`, although it lies above it. -/
theorem normalizePathUnder_parent :
    normalizePathUnder [dot, dot, sep, dot, dot, sep, 120] [dot, dot] =
      some [dot, dot, sep, dot, dot, sep, 120] /\
    ¬ IsBelow [dot, dot, sep, dot, dot, sep, 120] [dot, dot] := by
  refine ⟨by decide, fun ⟨names, _, remaining⟩ => ?_⟩
  have second : parentDir ∈ names.map normal := by
    have shape : components [dot, dot, sep, dot, dot, sep, 120] =
        components (normalizePath [dot, dot]) ++ [.parentDir, .normal ⟨[120], by decide⟩] := by decide
    rw [<- append_cancel_left (shape.symm.trans remaining)]
    exact mem_cons_self
  rcases mem_map.mp second with ⟨name, _, equal⟩
  cases equal

end Uv.Fs
