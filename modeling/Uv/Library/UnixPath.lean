import Mathlib

namespace Uv.Library

/-!
# Unix paths

A path is a byte string.  Its components are what is left of the parts between the
separators once empty parts and `.` are dropped; only a leading `.` counts.  Buffers
are built by pushing components and shortened by popping the last one.  For a buffer
that is written without redundant bytes (`render`), both are operations on the list of
its components, and reading the components back gives that list.
-/

abbrev UnixPath := List UInt8

namespace UnixPath

def sep : UInt8 := 47
def dot : UInt8 := 46

/-- A part that names an entry of a directory. -/
def IsName (part : List UInt8) : Prop :=
  part ≠ [] /\ sep ∉ part /\ part ≠ [dot] /\ part ≠ [dot, dot]

instance : DecidablePred IsName := fun part =>
  inferInstanceAs (Decidable (part ≠ [] /\ sep ∉ part /\ part ≠ [dot] /\ part ≠ [dot, dot]))

abbrev Name := {part : List UInt8 // IsName part}

inductive Component where
  | rootDir
  | curDir
  | parentDir
  | normal (name : Name)
  deriving DecidableEq

namespace Component

def bytes : Component -> List UInt8
  | .rootDir => [sep]
  | .curDir => [dot]
  | .parentDir => [dot, dot]
  | .normal name => name.1

/-- Components are ordered by their kind, names then by their bytes. -/
def key : Component -> Nat ×ₗ List Nat
  | .rootDir => toLex (0, [])
  | .curDir => toLex (1, [])
  | .parentDir => toLex (2, [])
  | .normal name => toLex (3, name.1.map UInt8.toNat)

lemma key_injective : Function.Injective key := by
  intro left right same
  cases left with
  | normal name =>
    cases right with
    | normal other =>
      have bytes := congrArg (fun key => (ofLex key).2) same
      exact congrArg _ (Subtype.ext (List.map_injective_iff.mpr (fun _ _ => UInt8.toNat_inj.mp) bytes))
    | _ => cases same
  | _ => cases right <;> first | rfl | cases same

/-- The component can stand behind another one. -/
def IsStep : Component -> Prop
  | .rootDir => False
  | .curDir => False
  | .parentDir => True
  | .normal _ => True

end Component

open Component List

variable (path : UnixPath)

/-- The parts between the separators. -/
def parts : List (List UInt8) := path.splitOn sep

/-- A part as a component.  Empty parts and `.` are skipped. -/
def parsePart (part : List UInt8) : Option Component :=
  if part = [dot, dot] then some .parentDir
  else if valid : IsName part then some (.normal ⟨part, valid⟩)
  else none

def isAbsolute : Bool := path.head? == some sep

/-- The root, or a leading `.`. -/
def leading : List Component :=
  if isAbsolute path then [.rootDir]
  else if (parts path).head? = some [dot] then [.curDir]
  else []

def body : List Component := (parts path).filterMap parsePart

def components : List Component := leading path ++ body path

/-- Append a path to a buffer.  An absolute path replaces it. -/
def push (buffer path : UnixPath) : UnixPath :=
  if isAbsolute path then path
  else if buffer.getLast?.any (· != sep) then buffer ++ sep :: path
  else buffer ++ path

/-- The part is no component. -/
def skipped (part : List UInt8) : Bool := (parsePart part).isNone

/-- The path without its last component. -/
def parent : Option UnixPath :=
  match (parts path).rdropWhile skipped with
  | [] => if leading path = [.curDir] then some [] else none
  | first :: rest =>
    match (first :: rest).dropLast.rdropWhile skipped with
    | [] => some ((leading path).flatMap bytes)
    | kept => some ([sep].intercalate kept)

/-- Remove the last component.  The result also says whether there was one. -/
def pop (buffer : UnixPath) : UnixPath × Bool :=
  match parent buffer with
  | some rest => (rest, true)
  | none => (buffer, false)

/-- Paths are compared component by component. -/
def startsWith (path base : UnixPath) : Bool := (components base).isPrefixOf (components path)

/-- A path that is written without redundant bytes. -/
def render (absolute : Bool) (steps : List Component) : UnixPath :=
  (if absolute then [sep] else []) ++ [sep].intercalate (steps.map bytes)

/-! ## Parts -/

lemma parts_ne_nil : parts path ≠ [] := splitOn_ne_nil _ _

variable {path : UnixPath} {part : List UInt8}

lemma sep_not_mem_parts (mem : part ∈ parts path) :
    sep ∉ part := by
  induction path generalizing part with
  | nil =>
    rw [parts, splitOn_nil, mem_singleton] at mem
    rw [mem]
    exact not_mem_nil
  | cons byte path ih =>
    rw [parts, splitOn_cons_eq_if_modifyHead] at mem
    split at mem
    · rcases mem_cons.mp mem with rfl | mem
      · exact not_mem_nil
      · exact ih mem
    next other =>
      cases split : path.splitOn sep with
      | nil => exact absurd split (splitOn_ne_nil _ _)
      | cons first rest =>
        rw [split, modifyHead_cons] at mem
        have tail : ∀ part ∈ first :: rest, sep ∉ part := by
          rw [<- split]
          exact fun part => ih
        rcases mem_cons.mp mem with rfl | mem
        · intro member
          rcases mem_cons.mp member with rfl | member
          · exact other (beq_self_eq_true _)
          · exact tail first mem_cons_self member
        · exact tail part (mem_cons_of_mem _ mem)

variable {component : Component}

lemma parsePart_eq_some
    (parsed : parsePart part = some component) : component.bytes = part /\ component.IsStep := by
  unfold parsePart at parsed
  split at parsed
  next equal =>
    cases parsed
    exact ⟨equal.symm, trivial⟩
  · split at parsed
    · cases parsed
      exact ⟨rfl, trivial⟩
    · cases parsed

lemma parsePart_of_eq (up : part = [dot, dot]) :
    parsePart part = some .parentDir := if_pos up

lemma parsePart_of_isName (valid : IsName part) :
    parsePart part = some (.normal ⟨part, valid⟩) := (if_neg valid.2.2.2).trans (dif_pos valid)

lemma parsePart_of_not (other : part ≠ [dot, dot]) (invalid : ¬ IsName part) :
    parsePart part = none := (if_neg other).trans (dif_neg invalid)

lemma parsePart_bytes (step : component.IsStep) :
    parsePart component.bytes = some component := by
  cases component with
  | rootDir | curDir => cases step
  | parentDir => rfl
  | normal name => exact parsePart_of_isName name.2

lemma Component.IsStep.bne_rootDir (step : component.IsStep) :
    (component != .rootDir) := by
  cases component <;> first | rfl | cases step

lemma skipped_bytes (step : component.IsStep) :
    skipped component.bytes = false := by
  rw [skipped, parsePart_bytes step]
  rfl

lemma isStep_of_mem_body (mem : component ∈ body path) : component.IsStep := by
  rcases mem_filterMap.mp mem with ⟨part, _, parsed⟩
  exact (parsePart_eq_some parsed).2

variable {steps : List Component}

lemma exists_map_normal (all : ∀ component ∈ steps, component.IsStep /\ component ≠ .parentDir) :
    ∃ names : List Name, steps = names.map .normal := by
  induction steps with
  | nil => exact ⟨[], rfl⟩
  | cons component rest ih =>
    rcases ih (forall_mem_cons.mp all).2 with ⟨names, rfl⟩
    rcases all component mem_cons_self with ⟨step, notParent⟩
    cases component with
    | rootDir => cases step
    | curDir => cases step
    | parentDir => exact absurd rfl notParent
    | normal name => exact ⟨name :: names, rfl⟩

/-- The part before the root is empty. -/
lemma body_sep_cons (rest : UnixPath) : body (sep :: rest) = body rest := by
  have first : parts (sep :: rest) = [] :: parts rest :=
    splitOn_append_cons_self_of_not_mem not_mem_nil _
  rw [body, first, filterMap_cons_none (by decide), body]

lemma isAbsolute_iff :
    isAbsolute path <-> ∃ rest, path = sep :: rest := by
  cases path with
  | nil => exact ⟨nofun, fun ⟨_, equal⟩ => absurd equal.symm (cons_ne_nil _ _)⟩
  | cons byte rest =>
    rw [isAbsolute, head?_cons, beq_iff_eq, Option.some.injEq]
    exact ⟨fun equal => ⟨rest, by rw [equal]⟩, fun ⟨_, equal⟩ => (cons.inj equal).1⟩

lemma sep_not_mem_bytes (step : component.IsStep) :
    sep ∉ component.bytes := by
  cases component with
  | rootDir | curDir => cases step
  | parentDir => exact (by decide)
  | normal name => exact name.2.2.1

lemma bytes_ne_nil (component : Component) : component.bytes ≠ [] := by
  cases component with
  | normal name => exact name.2.1
  | _ => exact cons_ne_nil _ _

section

variable {steps : List Component} (all : ∀ component ∈ steps, component.IsStep)

include all

lemma filterMap_parsePart : (steps.map bytes).filterMap parsePart = steps := by
  induction steps with
  | nil => rfl
  | cons component steps ih =>
    have first := parsePart_bytes (all component mem_cons_self)
    rw [map_cons, filterMap_cons_some first, ih (forall_mem_cons.mp all).2]

lemma sep_not_mem_map_bytes (mem : part ∈ steps.map bytes) : sep ∉ part := by
  rcases mem_map.mp mem with ⟨component, componentListed, rfl⟩
  exact sep_not_mem_bytes (all component componentListed)

lemma parts_intercalate (nonempty : steps ≠ []) :
    parts ([sep].intercalate (steps.map bytes)) = steps.map bytes :=
  splitOn_intercalate sep (fun _ => sep_not_mem_map_bytes all) (mt map_eq_nil_iff.mp nonempty)

end

/-! ## Paths without redundant bytes -/

lemma intercalate_concat (parts : List (List UInt8)) (nonempty : parts ≠ []) (last : List UInt8) :
    [sep].intercalate (parts ++ [last]) = [sep].intercalate parts ++ sep :: last := by
  induction parts with
  | nil => exact absurd rfl nonempty
  | cons first rest ih =>
    cases rest with
    | nil => simp [intercalate]
    | cons second rest =>
      have tail := ih (cons_ne_nil _ _)
      simp only [intercalate, cons_append, intersperse_cons_cons, flatten_cons,
        append_assoc] at tail ⊢
      rw [tail]

lemma intercalate_render (absolute : Bool) (nonempty : steps ≠ []) :
    [sep].intercalate ((if absolute then [[]] else []) ++ steps.map bytes) = render absolute steps := by
  cases absolute with
  | false => rfl
  | true =>
    rcases exists_cons_of_ne_nil nonempty with ⟨first, rest, rfl⟩
    simp [render, intercalate]

section

variable {steps : List Component} (all : ∀ component ∈ steps, component.IsStep)

include all

/-- A relative path does not start with a separator. -/
lemma isAbsolute_intercalate : isAbsolute ([sep].intercalate (steps.map bytes)) = false := by
  cases steps with
  | nil => rfl
  | cons component rest =>
    have step := all component mem_cons_self
    rcases exists_cons_of_ne_nil (bytes_ne_nil component) with ⟨byte, tail, shape⟩
    have different : byte ≠ sep := fun equal => sep_not_mem_bytes step (by rw [shape, equal]; simp)
    have head : ([sep].intercalate ((component :: rest).map bytes)).head? = some byte := by
      cases rest <;> simp [intercalate, shape]
    rw [isAbsolute, head]
    exact beq_eq_false_iff_ne.mpr fun equal => different (Option.some.inj equal)

section

variable (absolute : Bool)

lemma body_render : body (render absolute steps) = steps := by
  have relative : body ([sep].intercalate (steps.map bytes)) = steps := by
    cases steps with
    | nil => rfl
    | cons component rest =>
      rw [body, parts_intercalate all (cons_ne_nil _ _), filterMap_parsePart all]
  cases absolute with
  | false => exact relative
  | true =>
    exact (body_sep_cons _).trans relative

lemma leading_render :
    leading (render absolute steps) = if absolute then [.rootDir] else [] := by
  cases absolute with
  | true => rfl
  | false =>
    have notAbsolute := isAbsolute_intercalate all
    have first : (parts (render false steps)).head? ≠ some [dot] := by
      cases steps with
      | nil => exact (by decide)
      | cons component rest =>
        rw [render, if_neg Bool.false_ne_true, nil_append,
          parts_intercalate all (cons_ne_nil _ _), map_cons, head?_cons]
        intro equal
        have parsed := parsePart_bytes (all component mem_cons_self)
        rw [Option.some.inj equal] at parsed
        cases parsed
    rw [leading, if_neg first]
    exact if_neg (Bool.eq_false_iff.mp notAbsolute)

/-- Reading the components of such a path gives them back. -/
lemma components_render :
    components (render absolute steps) = (if absolute then [.rootDir] else []) ++ steps := by
  rw [components, leading_render all, body_render all]

lemma getLast_render (nonempty : steps ≠ []) :
    (render absolute steps).getLast?.any (· != sep) := by
  rcases eq_nil_or_concat' steps with rfl | ⟨before, last, rfl⟩
  · exact absurd rfl nonempty
  have step := all last (mem_append_right _ (mem_singleton.mpr rfl))
  have ends : ∃ front, render absolute (before ++ [last]) = front ++ last.bytes := by
    rw [render, map_append, map_singleton]
    cases before with
    | nil => exact ⟨_, by rw [map_nil, nil_append, intercalate_singleton]⟩
    | cons first rest =>
      rw [intercalate_concat ((first :: rest).map bytes) (cons_ne_nil _ _)]
      exact ⟨_ ++ (_ ++ [sep]), by simp only [append_assoc, singleton_append]; rfl⟩
  rcases ends with ⟨front, ends⟩
  rw [ends, getLast?_append_of_ne_nil _ (bytes_ne_nil last),
    getLast?_eq_some_getLast (bytes_ne_nil last), Option.any_some, bne_iff_ne]
  intro equal
  exact sep_not_mem_bytes step (equal ▸ getLast_mem (bytes_ne_nil last))

/-- Pushing a component appends it. -/
lemma push_render (step : component.IsStep) :
    push (render absolute steps) component.bytes = render absolute (steps ++ [component]) := by
  have relative : isAbsolute component.bytes = false := by
    have single := @isAbsolute_intercalate [component] fun other mem =>
      mem_singleton.mp mem ▸ step
    rwa [map_singleton, intercalate_singleton] at single
  rw [push, relative, if_neg Bool.false_ne_true]
  cases steps with
  | nil => cases absolute <;> simp [render, intercalate]
  | cons first rest =>
    rw [if_pos (getLast_render all absolute (cons_ne_nil _ _)), render, render, map_append,
      map_singleton, intercalate_concat ((first :: rest).map bytes) (cons_ne_nil _ _), append_assoc]

lemma parts_render (nonempty : steps ≠ []) :
    parts (render absolute steps) = (if absolute then [[]] else []) ++ steps.map bytes := by
  have relative := parts_intercalate all nonempty
  cases absolute with
  | false => exact relative
  | true => exact (splitOn_append_cons_self_of_not_mem not_mem_nil _).trans (congrArg _ relative)

/-- Popping removes the last component. -/
lemma parent_render (step : component.IsStep) :
    parent (render absolute (steps ++ [component])) = some (render absolute steps) := by
  have all' : ∀ other ∈ steps ++ [component], other.IsStep := by
    intro other mem
    rcases mem_append.mp mem with mem | mem
    · exact all other mem
    · exact mem_singleton.mp mem ▸ step
  have trimmed : (parts (render absolute (steps ++ [component]))).rdropWhile skipped =
      ((if absolute then [[]] else []) ++ steps.map bytes) ++ [component.bytes] := by
    rw [parts_render all' absolute (append_ne_nil_of_right_ne_nil _ (cons_ne_nil _ _)),
      map_append, map_singleton, <- append_assoc,
      rdropWhile_concat_neg _ _ _ (Bool.eq_false_iff.mp (skipped_bytes step))]
  unfold parent
  split
  next empty => exact absurd (trimmed.symm.trans empty) (by simp)
  next first rest shape =>
    rw [<- shape, trimmed, dropLast_concat]
    rcases eq_nil_or_concat' steps with rfl | ⟨before, previous, rfl⟩
    · rw [leading_render all']
      cases absolute <;> rfl
    · have previousStep := all previous (mem_append_right _ (mem_singleton.mpr rfl))
      rw [map_append, map_singleton, <- append_assoc,
        rdropWhile_concat_neg _ _ _ (Bool.eq_false_iff.mp (skipped_bytes previousStep))]
      split
      next empty => exact absurd empty (by simp)
      · rw [append_assoc, <- map_singleton, <- map_append]
        exact congrArg some (intercalate_render absolute (by simp))

lemma pop_render (step : component.IsStep) :
    pop (render absolute (steps ++ [component])) = (render absolute steps, true) := by
  rw [pop, parent_render all absolute step]

end

omit all in
lemma pop_render_nil (absolute : Bool) :
    pop (render absolute []) = (render absolute [], false) := by
  cases absolute <;> rfl

end

/-! ## Going up and down -/

/-- How many of the parts lead to the parent directory. -/
def ascents (list : List (List UInt8)) : Nat := list.countP fun part => part = [dot, dot]

/-- How many of the parts lead to an entry of the directory. -/
def descents (list : List (List UInt8)) : Nat := list.countP fun part => IsName part

/-- How far above its start a path leads at most. -/
def climb : List (List UInt8) -> Nat
  | [] => 0
  | part :: rest =>
    if part = [dot, dot] then climb rest + 1
    else if IsName part then climb rest - 1
    else climb rest

/-! ## Lengths -/

/-- The length of the parts, each with a separator behind it. -/
def lengthWithSeps (parts : List (List UInt8)) : Nat := (parts.map fun part => part.length + 1).sum

lemma length_intercalate (parts : List (List UInt8)) (nonempty : parts ≠ []) :
    ([sep].intercalate parts).length + 1 = lengthWithSeps parts := by
  induction parts with
  | nil => exact absurd rfl nonempty
  | cons first rest ih =>
    cases rest with
    | nil => simp [lengthWithSeps, intercalate]
    | cons second rest =>
      have tail := ih (cons_ne_nil _ _)
      simp only [lengthWithSeps, intercalate, map_cons, sum_cons,
        intersperse_cons_cons, flatten_cons, length_append, length_singleton] at tail ⊢
      omega

lemma lengthWithSeps_parts (path : UnixPath) : lengthWithSeps (parts path) = path.length + 1 := by
  rw [<- length_intercalate _ (parts_ne_nil path), parts, intercalate_splitOn]

/-- Components are not longer than the parts they come from, and only as long if no part
was skipped. -/
lemma lengthWithSeps_filterMap (parts : List (List UInt8)) :
    lengthWithSeps ((parts.filterMap parsePart).map bytes) <= lengthWithSeps parts /\
    (lengthWithSeps ((parts.filterMap parsePart).map bytes) = lengthWithSeps parts ->
      (parts.filterMap parsePart).map bytes = parts) := by
  induction parts with
  | nil => exact ⟨le_rfl, fun _ => rfl⟩
  | cons part parts ih =>
    rcases ih with ⟨bound, exact'⟩
    cases parsed : parsePart part with
    | none =>
      rw [filterMap_cons_none parsed]
      simp only [lengthWithSeps, map_cons, sum_cons] at bound ⊢
      exact ⟨by omega, fun equal => absurd equal (by omega)⟩
    | some component =>
      rw [filterMap_cons_some parsed, map_cons, (parsePart_eq_some parsed).1]
      simp only [lengthWithSeps, map_cons, sum_cons] at bound exact' ⊢
      refine ⟨by omega, fun equal => ?_⟩
      rw [exact' (by omega)]

end UnixPath

end Uv.Library
