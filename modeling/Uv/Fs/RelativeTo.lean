import Uv.Fs.Path

namespace Uv.Fs

open Library UnixPath List NormalForm Component

/-!
# Relative paths

`relative_to` looks for the longest ancestor of the base that the path starts with, and
goes up from the base as many levels as the ancestor lies above it.  A `..` that is left
of the base cannot be undone in this way, since going up from it climbs further.
-/

/-- A path and then its parents. -/
def ancestorsWithin : Nat -> UnixPath -> List UnixPath
  | 0, path => [path]
  | fuel + 1, path =>
    path :: match parent path with
      | some before => ancestorsWithin fuel before
      | none => []

def ancestors (path : UnixPath) : List UnixPath := ancestorsWithin (components path).length path

def fromComponents : List Component -> UnixPath
  | .rootDir :: rest => render true rest
  | steps => render false steps

variable (path base : UnixPath)

/-- What is left of a path that is written without redundant bytes. -/
def stripPrefix : Option UnixPath :=
  if startsWith path base then
    some (fromComponents ((components path).drop (components base).length))
  else none

/-- The error shows the two normalised paths. -/
def relativeTo : Except (UnixPath × UnixPath) UnixPath :=
  let path := normalizePath path
  let base := normalizePath base
  match (ancestors base).findSome? fun ancestor =>
      (stripPrefix path ancestor).map fun stripped => (stripped, ancestor) with
  | none => .error (path, base)
  | some (stripped, commonPrefix) =>
    let levelsUp := (components base).length - (components commonPrefix).length
    let up := (List.replicate levelsUp Component.parentDir.bytes).foldl push []
    .ok (push up stripped)

/-! ## Following steps -/

namespace NormalForm

variable (form : NormalForm) (steps : List Component)

/-- Follow the components of a path. -/
def advance : NormalForm :=
  (steps.map Component.bytes).foldl follow form

lemma advance_append (steps steps' : List Component) :
    form.advance (steps ++ steps') = (form.advance steps).advance steps' := by
  rw [advance, map_append, foldl_append, advance, advance]

/-- Parts that are no components are not followed. -/
lemma foldl_follow (list : List (List UInt8)) (form : NormalForm) :
    list.foldl follow form = form.advance (list.filterMap parsePart) := by
  induction list generalizing form with
  | nil => rfl
  | cons part rest ih =>
    rw [foldl_cons, ih]
    cases parsed : parsePart part with
    | some component =>
      rw [filterMap_cons_some parsed, advance, advance, map_cons, foldl_cons,
        (parsePart_eq_some parsed).1]
    | none =>
      rw [filterMap_cons_none parsed, follow]
      unfold parsePart at parsed
      split at parsed
      next => cases parsed
      next other =>
        split at parsed
        next => cases parsed
        next invalid => rw [if_neg other, dif_neg invalid]

lemma advance_names (ups : Nat) (before names : List Name) :
    (⟨ups, before⟩ : NormalForm).advance (names.map .normal) = ⟨ups, before ++ names⟩ :=
  foldl_follow_names (filterMap_parsePart fun component mem => by
    rcases mem_map.mp mem with ⟨name, _, rfl⟩
    trivial) ups before

/-- Going up removes names, and then it climbs. -/
lemma advance_replicate (levels ups : Nat) (names : List Name) :
    (⟨ups, names⟩ : NormalForm).advance (List.replicate levels .parentDir) =
      ⟨ups + (levels - names.length), names.take (names.length - levels)⟩ := by
  induction levels generalizing ups names with
  | zero => simp [advance]
  | succ levels ih =>
    have first : (⟨ups, names⟩ : NormalForm).advance (replicate (levels + 1) .parentDir) =
        ((⟨ups, names⟩ : NormalForm).follow [dot, dot]).advance (replicate levels .parentDir) := rfl
    rw [first, follow, if_pos rfl]
    rcases eq_nil_or_concat' names with rfl | ⟨before, last, rfl⟩
    · simp only [reverse_nil]
      rw [ih]
      simp only [length_nil, take_nil, mk.injEq, and_true]
      omega
    · simp only [reverse_concat, reverse_reverse]
      rw [ih, length_append, length_singleton, Nat.add_sub_add_right, Nat.add_sub_add_right,
        take_append_of_le_length (Nat.sub_le _ _)]

lemma advance_steps : (⟨0, []⟩ : NormalForm).advance form.steps = form := by
  rw [steps, advance_append, advance_replicate, take_nil, advance_names]
  simp

/-- No step forgets a `..`. -/
lemma ups_le_advance :
    form.ups <= (form.advance steps).ups := by
  have climbed := (foldl_follow_spec (steps.map bytes) form).1
  rw [advance, climbed]
  exact Nat.le_add_right _ _

end NormalForm

variable {path : UnixPath}

/-- Following a joined path is following its two parts. -/
lemma foldl_parts_push (relative : isAbsolute path = false) (buffer : UnixPath)
    (form : NormalForm) :
    (parts (push buffer path)).foldl NormalForm.follow form =
      (parts path).foldl NormalForm.follow ((parts buffer).foldl NormalForm.follow form) := by
  rw [push, if_neg (Bool.eq_false_iff.mp relative)]
  split
  next =>
    rw [parts, splitOn_append_cons_self, foldl_append]
    rfl
  next ended =>
    rcases eq_nil_or_concat' buffer with rfl | ⟨before, last, rfl⟩
    · rfl
    · rw [getLast?_concat, Option.any_some, bne_iff_ne, not_not] at ended
      subst ended
      have split : parts (before ++ [sep]) = parts before ++ [[]] :=
        splitOn_append_cons_self before []
      rw [split, append_assoc, singleton_append, parts, splitOn_append_cons_self,
        foldl_append, foldl_append]
      rfl

/-! ## The common prefix -/

variable {steps : List Component}

/-- The search finds the longest ancestor of a rendered path that is accepted. -/
lemma findSome_ancestors {B : Type} {accept : UnixPath -> Option B} {found : B} (absolute : Bool)
    (fuel : Nat) (all : ∀ component ∈ steps, component.IsStep)
    (enough : steps.length <= fuel)
    (search : (ancestorsWithin fuel (render absolute steps)).findSome? accept = some found) :
    ∃ kept, kept <= steps.length /\ accept (render absolute (steps.take kept)) = some found /\
      ∀ more, kept < more -> more <= steps.length ->
        accept (render absolute (steps.take more)) = none := by
  induction fuel generalizing steps with
  | zero =>
    rw [length_eq_zero_iff.mp (Nat.le_zero.mp enough)] at search ⊢
    rw [ancestorsWithin, findSome?_singleton] at search
    exact ⟨0, le_rfl, search, fun more above below => absurd below (by simpa using above.ne')⟩
  | succ fuel ih =>
    rw [ancestorsWithin, findSome?_cons] at search
    cases here : accept (render absolute steps) with
    | some first =>
      rw [here] at search
      refine ⟨steps.length, le_rfl, ?_, fun more above below => absurd above (Nat.not_lt.mpr below)⟩
      rw [take_length, here]
      exact search
    | none =>
      rw [here] at search
      rcases eq_nil_or_concat' steps with rfl | ⟨before, last, rfl⟩
      · have top : parent (render absolute []) = none := by cases absolute <;> rfl
        rw [top] at search
        exact absurd search.symm (Option.some_ne_none _)
      · have beforeSteps := fun component mem => all component (mem_append_left _ mem)
        rw [parent_render beforeSteps absolute
          (all last (mem_append_right _ mem_cons_self))] at search
        rw [length_append, length_singleton] at enough ⊢
        rcases ih beforeSteps (Nat.le_of_succ_le_succ enough) search with ⟨kept, short, holds, longest⟩
        refine ⟨kept, Nat.le_succ_of_le short, ?_, fun more above below => ?_⟩
        · rw [take_append_of_le_length short, holds]
        · rcases Nat.lt_or_eq_of_le below with below | rfl
          · rw [take_append_of_le_length (Nat.le_of_lt_succ below)]
            exact longest more above (Nat.le_of_lt_succ below)
          · have whole := @take_length _ (before ++ [last])
            rw [length_append, length_singleton] at whole
            rw [whole, here]

lemma foldl_push (absolute : Bool) {steps : List Component}
    (all : ∀ component ∈ steps, component.IsStep) {before : List Component}
    (beforeSteps : ∀ component ∈ before, component.IsStep) :
    (steps.map Component.bytes).foldl push (render absolute before) = render absolute (before ++ steps) := by
  induction steps generalizing before with
  | nil => rw [append_nil]; rfl
  | cons component rest ih =>
    have step := all component mem_cons_self
    rw [map_cons, foldl_cons, push_render beforeSteps absolute step,
      ih (forall_mem_cons.mp all).2, append_assoc,
      singleton_append]
    intro other mem
    rcases mem_append.mp mem with mem | mem
    · exact beforeSteps other mem
    · rw [mem_singleton.mp mem]
      exact step

lemma fromComponents_steps (all : ∀ component ∈ steps, component.IsStep) :
    fromComponents steps = render false steps := by
  cases steps with
  | nil => rfl
  | cons component rest =>
    cases component with
    | rootDir => exact (all .rootDir mem_cons_self).elim
    | _ => rfl

/-- Stripping an ancestor leaves a relative path only if both paths are absolute or none is. -/
lemma stripPrefix_render {absolute absolute' : Bool} {steps steps' : List Component}
    (all : ∀ component ∈ steps, component.IsStep)
    (all' : ∀ component ∈ steps', component.IsStep) {stripped : UnixPath}
    (found : stripPrefix (render absolute steps) (render absolute' steps') = some stripped)
    (relative : isAbsolute stripped = false) :
    absolute = absolute' /\ steps' <+: steps /\ stripped = render false (steps.drop steps'.length) := by
  unfold stripPrefix startsWith at found
  rcases Option.ite_none_right_eq_some.mp found with ⟨starts, rest⟩
  rw [components_render all, components_render all'] at starts rest
  have starts := isPrefixOf_iff_prefix.mp starts
  replace rest := Option.some.inj rest
  have remaining := fromComponents_steps fun other (mem : other ∈ steps.drop steps'.length) =>
    all other (mem_of_mem_drop mem)
  cases absolute with
  | true =>
    cases absolute' with
    | true =>
      refine ⟨rfl, (prefix_append_right_inj [rootDir]).mp starts, ?_⟩
      rw [<- rest, <- remaining]
      simp
    | false =>
      cases steps' with
      | nil =>
        rw [<- rest] at relative
        cases relative
      | cons component others =>
        have same := (cons_prefix_cons.mp starts).1
        rw [same] at all'
        exact (all' .rootDir mem_cons_self).elim
  | false =>
    cases absolute' with
    | true => exact (all .rootDir (starts.subset mem_cons_self)).elim
    | false =>
      refine ⟨rfl, starts, ?_⟩
      rw [<- rest, <- remaining]
      rfl

/-- The path stripped of the longest common prefix, behind as many `..` as the base goes on. -/
lemma relativeTo_spec {base result : UnixPath} (returned : relativeTo path base = .ok result)
    (relative : isAbsolute result = false) :
    isAbsolute path = isAbsolute base /\ ∃ kept, kept <= (normalForm base).steps.length /\
      (normalForm base).steps.take kept <+: (normalForm path).steps /\
      (∀ more, kept < more -> more <= (normalForm base).steps.length ->
        ¬ (normalForm base).steps.take more <+: (normalForm path).steps) /\
      result = push (render false (List.replicate ((normalForm base).steps.length - kept) .parentDir))
        (render false ((normalForm path).steps.drop kept)) := by
  have pathSteps := fun component => @isStep (normalForm path) component
  have baseSteps := fun component => @isStep (normalForm base) component
  have takeSteps : ∀ kept component, component ∈ (normalForm base).steps.take kept ->
      component.IsStep := fun _ component mem => baseSteps component (mem_of_mem_take mem)
  unfold relativeTo ancestors at returned
  simp only [normalizePath_eq] at returned
  split at returned
  next => cases returned
  next stripped commonPrefix search =>
    have enough : (normalForm base).steps.length <=
        (components (render (isAbsolute base) (normalForm base).steps)).length := by
      rw [components_render baseSteps, length_append]
      exact Nat.le_add_left _ _
    rcases findSome_ancestors _ _ baseSteps enough search with ⟨kept, short, accepted, longest⟩
    rcases Option.map_eq_some_iff.mp accepted with ⟨_, strips, same⟩
    cases same
    have levels : (components (render (isAbsolute base) (normalForm base).steps)).length -
        (components (render (isAbsolute base) ((normalForm base).steps.take kept))).length =
          (normalForm base).steps.length - kept := by
      rw [components_render baseSteps, components_render (takeSteps kept), length_append,
        length_append, length_take_of_le short, Nat.add_sub_add_left]
    have ups := @foldl_push false
      (replicate ((normalForm base).steps.length - kept) .parentDir)
      (fun component mem => by rw [eq_of_mem_replicate mem]; trivial) []
      (fun component mem => by cases mem)
    rw [map_replicate, nil_append] at ups
    rw [levels] at returned
    have joined := (Except.ok.inj returned).symm.trans (congrArg (push · stripped) ups)
    have strippedRelative : isAbsolute stripped = false := by
      rw [joined, push] at relative
      by_contra absolute
      rw [if_pos (Bool.eq_true_of_not_eq_false absolute)] at relative
      exact absolute relative
    rcases stripPrefix_render pathSteps (takeSteps kept) strips strippedRelative with
      ⟨sameKind, starts, rfl⟩
    refine ⟨sameKind, kept, short, starts, fun more above below longer => ?_, ?_⟩
    · have rejected := longest more above below
      rw [stripPrefix, if_pos] at rejected
      · cases rejected
      · rw [startsWith, components_render pathSteps, components_render (takeSteps more),
          isPrefixOf_iff_prefix, sameKind, prefix_append_right_inj]
        exact longer
    · rw [joined, length_take_of_le short]

/-! ## Joining the result to the base -/

/-- Going up from a normal form to one of its prefixes that keeps all `..`. -/
lemma NormalForm.steps_advance_up (form : NormalForm) {kept : Nat} (low : form.ups <= kept)
    (short : kept <= form.steps.length) :
    (form.advance (List.replicate (form.steps.length - kept) .parentDir)).steps = form.steps.take kept := by
  rcases form with ⟨ups, names⟩
  have length : (⟨ups, names⟩ : NormalForm).steps.length = ups + names.length := by
    rw [steps, length_append, length_replicate, length_map]
  rw [length] at short ⊢
  replace low : ups <= kept := low
  have levels : names.length - (ups + names.length - kept) = kept - ups := by omega
  have nothing : ups + names.length - kept - names.length = 0 := by omega
  have allUps : (replicate ups parentDir).take kept = replicate ups .parentDir :=
    take_of_length_le (by rwa [length_replicate])
  rw [advance_replicate, levels, nothing]
  change replicate ups _ ++ (names.take (kept - ups)).map _ =
    take kept (replicate ups _ ++ names.map _)
  rw [take_append, length_replicate, allUps, map_take]

lemma isAbsolute_push (relative : isAbsolute path = false) (buffer : UnixPath) :
    isAbsolute (push buffer path) = isAbsolute buffer := by
  rw [push, if_neg (Bool.eq_false_iff.mp relative)]
  cases buffer with
  | nil => exact relative
  | cons byte rest => split <;> rfl

/-- A relative result leads from the base to the path exactly if the base does not climb
further above its start than the path. -/
theorem relativeTo_normalize_iff {path base result : UnixPath}
    (returned : relativeTo path base = .ok result) (relative : isAbsolute result = false) :
    normalizePath (push base result) = normalizePath path <->
      climb (parts base) <= climb (parts path) := by
  have absolute := isAbsolute_push relative base
  have form := foldl_parts_push relative base ⟨0, []⟩
  rcases relativeTo_spec returned relative with ⟨sameKind, kept, short, starts, longest, rfl⟩
  have restSteps : ∀ component ∈ (normalForm path).steps.drop kept, component.IsStep :=
    fun component mem => isStep (mem_of_mem_drop mem)
  have upSteps : ∀ component,
      component ∈ replicate ((normalForm base).steps.length - kept) parentDir ->
      component.IsStep := fun component mem => by rw [eq_of_mem_replicate mem]; trivial
  have restRelative : isAbsolute (render false ((normalForm path).steps.drop kept)) = false :=
    isAbsolute_intercalate restSteps
  rw [foldl_parts_push restRelative, foldl_follow (parts (render _ _)),
    foldl_follow (parts (render _ _))] at form
  change normalForm _ = ((normalForm base).advance (body _)).advance (body _) at form
  rw [body_render restSteps, body_render upSteps] at form
  rw [<- normalForm_ups, <- normalForm_ups]
  constructor
  · intro equal
    have steps := congrArg components equal
    rw [components_normalizePath, components_normalizePath, absolute, sameKind,
      append_cancel_left_eq] at steps
    rw [<- count_parentDir (normalForm path), <- steps, count_parentDir, form]
    exact ((normalForm base).ups_le_advance _).trans (ups_le_advance _ _)
  · intro lower
    -- The `..` of the base belong to the common prefix.
    have low : (normalForm base).ups <= kept := by
      by_contra above
      refine longest (normalForm base).ups (Nat.lt_of_not_le above) ?_ ?_
      · rw [steps, length_append, length_replicate]
        exact Nat.le_add_right _ _
      · have first : (normalForm base).steps.take (normalForm base).ups =
            replicate (normalForm base).ups .parentDir :=
          take_left' length_replicate
        rw [first, steps, <- Nat.add_sub_cancel' lower, replicate_add, append_assoc]
        exact prefix_append _ _
    have up := steps_advance_up (normalForm base) low short
    have common : (normalForm base).steps.take kept = (normalForm path).steps.take kept := by
      have equal := prefix_iff_eq_take.mp starts
      rwa [length_take_of_le short] at equal
    rw [<- advance_steps ((normalForm base).advance _), up, common,
      <- advance_append, take_append_drop, advance_steps] at form
    rw [normalizePath_eq, normalizePath_eq, absolute, sameKind, form]

/-- From `a/b` to `a/c`. -/
theorem relativeTo_normalize_sibling :
    relativeTo [97, sep, 99] [97, sep, 98] = .ok [dot, dot, sep, 99] /\
      normalizePath (push [97, sep, 98] [dot, dot, sep, 99]) = normalizePath [97, sep, 99] := by
  have returned : relativeTo [97, sep, 99] [97, sep, 98] = .ok [dot, dot, sep, 99] := by decide +kernel
  exact ⟨returned, (relativeTo_normalize_iff returned (by decide)).mpr (by decide +kernel)⟩

/-- From `..` to `x` the result is `../x`, which leads to `../../x`. -/
theorem relativeTo_parent :
    relativeTo [120] [dot, dot] = .ok [dot, dot, sep, 120] /\
      normalizePath (push [dot, dot] [dot, dot, sep, 120]) = [dot, dot, sep, dot, dot, sep, 120] /\
      normalizePath [120] = [120] := by
  refine ⟨?_, ?_, ?_⟩ <;> decide +kernel

end Uv.Fs
