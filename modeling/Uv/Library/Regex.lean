import Mathlib

namespace Uv.Library

open List

/-!
# Regular expressions with captures

A regular expression with named groups, read as a backtracking matcher.  The
matcher receives a continuation for the rest of the input and returns the first
success: an alternation tries its left branch first, an option and a repetition
try to match once more before they stop.  This is the meaning of a greedy
regular expression as implemented by the usual engines, and it determines which
text each group captures.

Repetitions of single letters are the place where backtracking would happen.
When the continuation cannot start with one of these letters, only the longest
run can succeed, and the matcher is the run followed by the continuation.
-/

inductive Regex (ι α : Type) where
  | eps
  | chars (test : α -> Bool)
  | seq (first second : Regex ι α)
  | alt (left right : Regex ι α)
  | opt (body : Regex ι α)
  | star (body : Regex ι α)
  | group (name : ι) (body : Regex ι α)

namespace Regex

variable {ι α β : Type}

/-- The texts captured so far. -/
abbrev Captures (ι α : Type) := ι -> Option (List α)

/-- What remains to be matched, with the result of a success. -/
abbrev Continuation (ι α β : Type) := List α -> Captures ι α -> Option β

def Captures.set [DecidableEq ι] (caps : Captures ι α) (name : ι) (text : List α) :
    Captures ι α :=
  fun other => if other = name then some text else caps other

/-- Repeat a matcher as often as possible.  A round has to read something, so
the length of the input bounds the number of rounds. -/
def repeatMatch (body : Continuation ι α β -> Continuation ι α β) (next : Continuation ι α β) :
    Nat -> Continuation ι α β
  | 0, input, caps => next input caps
  | rounds + 1, input, caps =>
    (body (fun rest caps =>
        if rest.length < input.length then repeatMatch body next rounds rest caps else none)
      input caps).or (next input caps)

variable [DecidableEq ι]

def exec : Regex ι α -> Continuation ι α β -> Continuation ι α β
  | .eps, next, input, caps => next input caps
  | .chars _, _, [], _ => none
  | .chars test, next, letter :: rest, caps => if test letter then next rest caps else none
  | .seq first second, next, input, caps => exec first (exec second next) input caps
  | .alt left right, next, input, caps =>
    (exec left next input caps).or (exec right next input caps)
  | .opt body, next, input, caps => (exec body next input caps).or (next input caps)
  | .star body, next, input, caps =>
    repeatMatch (exec body) next (input.length + 1) input caps
  | .group name body, next, input, caps =>
    exec body
      (fun rest caps =>
        next rest (caps.set name (input.take (input.length - rest.length))))
      input caps

lemma exec_seq (first second : Regex ι α) (next : Continuation ι α β) :
    exec (.seq first second) next = exec first (exec second next) := by
  funext input caps
  rw [exec]

/-- The captures of the first match of the whole input. -/
def fullMatch (regex : Regex ι α) (input : List α) : Option (Captures ι α) :=
  exec regex (fun rest caps => if rest.isEmpty then some caps else none) input fun _ => none

/-- At least one repetition. -/
def plus (body : Regex ι α) : Regex ι α := .seq body (.star body)

/-- A fixed sequence of letter tests. -/
def literal : List (α -> Bool) -> Regex ι α
  | [] => .eps
  | test :: rest => .seq (.chars test) (literal rest)

/-- The first alternative that matches. -/
def oneOf : List (Regex ι α) -> Regex ι α
  | [] => .eps
  | [regex] => regex
  | regex :: rest => .alt regex (oneOf rest)

/-! ## Runs of letters -/

/-- The continuation fails on inputs that start with such a letter. -/
def Rejects (next : Continuation ι α β) (test : α -> Bool) : Prop :=
  ∀ letter rest caps, test letter = true -> next (letter :: rest) caps = none

variable {next : Continuation ι α β} (test : α -> Bool)

/-- A repetition of one letter test takes the whole run. -/
lemma repeatMatch_chars
    (rejects : Rejects next test) (rounds : Nat) (input : List α) (caps : Captures ι α)
    (enough : input.length < rounds) :
    repeatMatch (exec (.chars test)) next rounds input caps =
      next (input.dropWhile test) caps := by
  induction rounds generalizing input with
  | zero => cases enough
  | succ rounds ih =>
    cases input with
    | nil => simp [repeatMatch, exec]
    | cons letter rest =>
      rw [repeatMatch, exec]
      by_cases accepted : test letter
      · rw [if_pos accepted, if_pos (by simp), dropWhile_cons_of_pos accepted,
          ih rest (Nat.lt_of_succ_lt_succ enough), rejects letter rest caps accepted,
          Option.or_none]
      · rw [if_neg accepted, Option.none_or, dropWhile_cons_of_neg accepted]

lemma exec_star_chars (rejects : Rejects next test) (input : List α) (caps : Captures ι α) :
    exec (.star (.chars test)) next input caps = next (input.dropWhile test) caps :=
  repeatMatch_chars test rejects (input.length + 1) input caps (Nat.lt_succ_self _)

lemma exec_plus_chars (rejects : Rejects next test) (input : List α) (caps : Captures ι α) :
    exec (plus (.chars test)) next input caps =
      if (input.takeWhile test).isEmpty then none else next (input.dropWhile test) caps := by
  cases input with
  | nil => rfl
  | cons letter rest =>
    rw [plus, exec, exec, takeWhile_cons]
    by_cases accepted : test letter
    · rw [if_pos accepted, if_pos accepted, exec_star_chars test rejects,
        dropWhile_cons_of_pos accepted]
      rfl
    · rw [if_neg accepted, if_neg accepted]
      rfl

/-! ## Literals -/

/-- Each test of a literal accepts its letter. -/
def startsWith : List (α -> Bool) -> List α -> Bool
  | [], _ => true
  | _ :: _, [] => false
  | test :: tests, letter :: rest => test letter && startsWith tests rest

lemma exec_literal (tests : List (α -> Bool)) (next : Continuation ι α β) (input : List α)
    (caps : Captures ι α) :
    exec (literal tests) next input caps =
      if startsWith tests input then next (input.drop tests.length) caps else none := by
  induction tests generalizing input with
  | nil => rfl
  | cons test tests ih =>
    cases input with
    | nil => rfl
    | cons letter rest =>
      rw [literal, exec, exec, startsWith]
      by_cases accepted : test letter
      · rw [if_pos accepted, ih rest, accepted, Bool.true_and]
        rfl
      · rw [if_neg accepted, Bool.eq_false_iff.mpr accepted, Bool.false_and]
        rfl

/-! ## Separated items -/

/-- Skip a separator and a run of items, as often as possible. -/
def skipItems (separator item : α -> Bool) : Nat -> List α -> List α
  | 0, input => input
  | _ + 1, [] => []
  | rounds + 1, letter :: rest =>
    if separator letter && !(rest.takeWhile item).isEmpty then
      skipItems separator item rounds (rest.dropWhile item)
    else letter :: rest

/-- The continuation fails on inputs that go on with another item. -/
def RejectsItem (next : Continuation ι α β) (separator item : α -> Bool) : Prop :=
  ∀ letter first rest caps, separator letter = true -> item first = true ->
    next (letter :: first :: rest) caps = none

variable {separator : α -> Bool}

/-- A separator followed by a run, as a matcher. -/
lemma exec_separated_item {item : α -> Bool}
    (rejects : Rejects next item) (input : List α) (caps : Captures ι α) :
    exec (.seq (.chars separator) (plus (.chars item))) next input caps =
      match input with
      | [] => none
      | letter :: rest =>
        if separator letter && !(rest.takeWhile item).isEmpty then
          next (rest.dropWhile item) caps
        else none := by
  cases input with
  | nil => rfl
  | cons letter rest =>
    rw [exec, exec]
    by_cases separates : separator letter
    · rw [if_pos separates, exec_plus_chars item rejects]
      simp only [separates, Bool.true_and]
      cases (rest.takeWhile item).isEmpty <;> rfl
    · simp [separates]

section

variable {item : α -> Bool}
  (disjoint : ∀ letter, separator letter = true -> item letter = false)
  (rejects : Rejects next item) (rejectsItem : RejectsItem next separator item)

include disjoint rejects rejectsItem

lemma repeatMatch_separated
    (rounds : Nat) (input : List α) (caps : Captures ι α) (enough : input.length < rounds) :
    repeatMatch (exec (.seq (.chars separator) (plus (.chars item)))) next rounds input caps =
      next (skipItems separator item rounds input) caps := by
  induction rounds generalizing input caps with
  | zero => cases enough
  | succ rounds ih =>
    -- After an item the repetition cannot go on with the same item.
    have again : Rejects (fun rest caps =>
        if rest.length < input.length then
          repeatMatch (exec (.seq (.chars separator) (plus (.chars item)))) next rounds rest caps
        else none) item := by
      intro letter rest caps accepted
      simp only
      split
      next shorter =>
        rw [ih _ _ (by omega)]
        cases rounds with
        | zero => omega
        | succ rounds =>
          have apart : separator letter = false := by
            cases separates : separator letter with
            | false => rfl
            | true => rw [disjoint letter separates] at accepted; cases accepted
          rw [skipItems, apart, Bool.false_and, if_neg Bool.false_ne_true]
          exact rejects letter rest caps accepted
      next => rfl
    rw [repeatMatch, exec_separated_item again]
    cases input with
    | nil => rfl
    | cons letter rest =>
      rw [skipItems]
      dsimp only
      by_cases found : (separator letter && !(rest.takeWhile item).isEmpty)
      · rw [if_pos found, if_pos found]
        have shorter : (rest.dropWhile item).length <= rest.length :=
          (dropWhile_sublist item).length_le
        rw [if_pos (by rw [length_cons]; omega),
          ih _ _ (Nat.lt_of_le_of_lt shorter (Nat.lt_of_succ_lt_succ enough))]
        -- Stopping before the item is not an option for the continuation.
        have stuck : next (letter :: rest) caps = none := by
          rw [Bool.and_eq_true, Bool.not_eq_true', isEmpty_eq_false_iff] at found
          cases rest with
          | nil => exact absurd rfl found.2
          | cons first rest =>
            have accepted : item first := by
              cases accepts : item first with
              | true => rfl
              | false =>
                exact absurd (takeWhile_cons_of_neg (by simp [accepts])) found.2
            exact rejectsItem letter first rest caps found.1 accepted
        rw [stuck, Option.or_none]
      · rw [if_neg found, if_neg found, Option.none_or]

lemma exec_star_separated (input : List α) (caps : Captures ι α) :
    exec (.star (.seq (.chars separator) (plus (.chars item)))) next input caps =
      next (skipItems separator item (input.length + 1) input) caps :=
  repeatMatch_separated disjoint rejects rejectsItem _ input caps (Nat.lt_succ_self _)

end

/-! ## Text after the match -/

/-- No letter test of the expression accepts such a letter. -/
def Avoids (test : α -> Bool) : Regex ι α -> Prop
  | .eps => True
  | .chars accepts => ∀ letter, test letter = true -> accepts letter = false
  | .seq first second => first.Avoids test /\ second.Avoids test
  | .alt left right => left.Avoids test /\ right.Avoids test
  | .opt body => body.Avoids test
  | .star body => body.Avoids test
  | .group _ body => body.Avoids test

/-- Two continuations agree on certain inputs, up to a tail that only the second
one sees. -/
def AgreeUpTo (tail : List α) (good : List α -> Prop) (next next' : Continuation ι α β) : Prop :=
  ∀ input, good input -> ∀ caps, next input caps = next' (input ++ tail) caps

variable {good : List α -> Prop} {body : Continuation ι α β -> Continuation ι α β}

omit [DecidableEq ι] in
lemma repeatMatch_append {tail : List α} {body' : Continuation ι α β -> Continuation ι α β}
    (bodies : ∀ next next' : Continuation ι α β, AgreeUpTo tail good next next' ->
      AgreeUpTo tail good (body next) (body' next'))
    (next next' : Continuation ι α β) (agree : AgreeUpTo tail good next next') (rounds : Nat) :
    AgreeUpTo tail good (repeatMatch body next rounds) (repeatMatch body' next' rounds) := by
  induction rounds with
  | zero => exact agree
  | succ rounds ih =>
    intro input inputGood caps
    rw [repeatMatch, repeatMatch, <- agree input inputGood caps]
    congr 1
    refine bodies _ _ ?_ input inputGood caps
    intro rest restGood caps
    simp only [length_append, Nat.add_lt_add_iff_right, <- ih rest restGood caps]

omit [DecidableEq ι] in
/-- More rounds than letters make no difference. -/
lemma repeatMatch_rounds (body : Continuation ι α β -> Continuation ι α β)
    (next : Continuation ι α β) (rounds : Nat) :
    ∀ (more : Nat) (input : List α) (caps : Captures ι α), input.length < rounds ->
      repeatMatch body next (rounds + more) input caps =
        repeatMatch body next rounds input caps := by
  induction rounds with
  | zero =>
    intro more input caps enough
    cases enough
  | succ rounds ih =>
    intro more input caps enough
    rw [Nat.add_right_comm, repeatMatch, repeatMatch]
    congr 2
    funext rest caps
    split
    next shorter => exact ih more rest caps (by omega)
    next => rfl

/-- An expression that avoids the first letter of a tail never reads into it. -/
lemma exec_append {test : α -> Bool} {tail : List α}
    (foreign : ∀ letter rest, tail = letter :: rest -> test letter)
    (closed : ∀ letter rest, good (letter :: rest) -> good rest)
    (regex : Regex ι α) (avoids : regex.Avoids test) :
    ∀ next next' : Continuation ι α β, AgreeUpTo tail good next next' ->
      AgreeUpTo tail good (exec regex next) (exec regex next') := by
  induction regex with
  | eps => exact fun next next' agree => agree
  | chars accepts =>
    intro next next' agree input inputGood caps
    cases input with
    | cons letter rest =>
      rw [cons_append, exec, exec, agree rest (closed letter rest inputGood) caps]
    | nil =>
      rw [nil_append]
      cases tail with
      | nil => rfl
      | cons letter rest =>
        rw [exec, exec, avoids letter (foreign letter rest rfl), if_neg Bool.false_ne_true]
  | seq first second ihFirst ihSecond =>
    intro next next' agree
    rw [exec_seq, exec_seq]
    exact ihFirst avoids.1 _ _ (ihSecond avoids.2 next next' agree)
  | alt left right ihLeft ihRight =>
    intro next next' agree input inputGood caps
    rw [exec, exec, ihLeft avoids.1 next next' agree input inputGood caps,
      ihRight avoids.2 next next' agree input inputGood caps]
  | opt body ih =>
    intro next next' agree input inputGood caps
    rw [exec, exec, ih avoids next next' agree input inputGood caps,
      agree input inputGood caps]
  | star body ih =>
    intro next next' agree input inputGood caps
    rw [exec, exec, <- repeatMatch_rounds _ _ _ tail.length input caps (Nat.lt_succ_self _),
      repeatMatch_append (ih avoids) next next' agree _ input inputGood caps,
      length_append, Nat.add_right_comm]
  | group name body ih =>
    intro next next' agree input inputGood caps
    rw [exec, exec]
    refine ih avoids _ _ ?_ input inputGood caps
    intro rest restGood caps
    have text : (input ++ tail).take ((input ++ tail).length - (rest ++ tail).length) =
        input.take (input.length - rest.length) := by
      rw [length_append, length_append, Nat.add_sub_add_right,
        take_append_of_le_length (Nat.sub_le _ _)]
    simp only [text]
    exact agree rest restGood _

/-! ## The language of an expression -/

omit [DecidableEq ι] in
/-- The texts that an expression describes, without a matcher. -/
def Matches : Regex ι α -> List α -> Prop
  | .eps, text => text = []
  | .chars test, text => ∃ letter, test letter = true /\ text = [letter]
  | .seq first second, text => ∃ front back,
    text = front ++ back /\ first.Matches front /\ second.Matches back
  | .alt left right, text => left.Matches text \/ right.Matches text
  | .opt body, text => text = [] \/ body.Matches text
  | .star body, text => ∃ pieces : List (List α),
    text = pieces.flatten /\ ∀ piece ∈ pieces, body.Matches piece
  | .group _ body, text => body.Matches text

/-- The success of a continuation does not depend on the captures. -/
def Blind (next : Continuation ι α β) : Prop :=
  ∀ input caps caps', (next input caps).isSome = (next input caps').isSome

/-- A matcher succeeds when a text of the language comes first and the
continuation succeeds after it. -/
def Accepts (language : List α -> Prop) (next : Continuation ι α β) (input : List α)
    (caps : Captures ι α) : Prop :=
  ∃ text rest, input = text ++ rest /\ language text /\ (next rest caps).isSome = true

variable {language : List α -> Prop}

omit [DecidableEq ι] in
lemma blind_of_accepts {matcher : Continuation ι α β} (accepts : ∀ input caps,
      (matcher input caps).isSome <-> Accepts language next input caps)
    (blind : Blind next) : Blind matcher := by
  intro input caps caps'
  have same : Accepts language next input caps <-> Accepts language next input caps' := by
    simp only [Accepts, blind _ caps caps']
  rw [Bool.eq_iff_iff, accepts, accepts, same]

omit [DecidableEq ι] in
lemma repeatMatch_isSome (bodies : ∀ next : Continuation ι α β, Blind next -> ∀ input caps,
      (body next input caps).isSome <-> Accepts language next input caps)
    (blind : Blind next) (rounds : Nat) (input : List α)
    (caps : Captures ι α) (enough : input.length < rounds) :
    (repeatMatch body next rounds input caps).isSome <->
      Accepts (fun text => ∃ pieces : List (List α),
        text = pieces.flatten /\ ∀ piece ∈ pieces, language piece)
        next input caps := by
  induction rounds generalizing input caps with
  | zero => cases enough
  | succ rounds ih =>
    have inner : ∀ rest caps,
        (if rest.length < input.length then repeatMatch body next rounds rest caps
          else none).isSome <->
          rest.length < input.length /\
            Accepts (fun text => ∃ pieces : List (List α),
              text = pieces.flatten /\ ∀ piece ∈ pieces, language piece)
              next rest caps := by
      intro rest caps
      split
      next shorter => rw [ih rest caps (by omega), and_iff_right shorter]
      next longer => exact ⟨nofun, fun both => absurd both.1 longer⟩
    have innerBlind : Blind fun rest caps =>
        if rest.length < input.length then repeatMatch body next rounds rest caps else none := by
      intro rest caps caps'
      rw [Bool.eq_iff_iff, inner, inner]
      simp only [Accepts, blind _ caps caps']
    rw [repeatMatch, Option.isSome_or, Bool.or_eq_true, bodies _ innerBlind]
    simp only [Accepts, inner]
    constructor
    · rintro (⟨piece, _, rfl, matched, _, _, rest, rfl, ⟨pieces, rfl, all⟩, succeeds⟩ | succeeds)
      · refine ⟨(piece :: pieces).flatten, rest, by simp, ⟨piece :: pieces, rfl, ?_⟩, succeeds⟩
        exact forall_mem_cons.mpr ⟨matched, all⟩
      · exact ⟨[], input, rfl, ⟨[], rfl, nofun⟩, succeeds⟩
    · rintro ⟨text, rest, whole, ⟨pieces, joined, all⟩, succeeds⟩
      -- Empty pieces do not count; the body reads the first other one.
      rw [<- flatten_filter_not_isEmpty] at joined
      have others : ∀ piece, piece ∈ pieces.filter (fun piece => !piece.isEmpty) ->
          piece ≠ [] /\ language piece := by
        intro piece inside
        obtain ⟨mem, visible⟩ := mem_filter.mp inside
        exact ⟨by simpa using visible, all piece mem⟩
      generalize pieces.filter (fun piece => !piece.isEmpty) = pieces at joined others
      cases pieces with
      | nil =>
        rw [joined, flatten_nil, nil_append] at whole
        exact Or.inr (whole ▸ succeeds)
      | cons piece pieces =>
        obtain ⟨⟨nonempty, matched⟩, others⟩ := forall_mem_cons.mp others
        have positive := length_pos_iff.mpr nonempty
        rw [joined, flatten_cons, append_assoc] at whole
        refine Or.inl ⟨piece, pieces.flatten ++ rest, whole, matched, ?_, pieces.flatten, rest,
          rfl, ⟨pieces, rfl, fun piece inside => (others piece inside).2⟩, succeeds⟩
        rw [whole]
        simp only [length_append]
        omega

variable (regex : Regex ι α)

lemma exec_isSome (next : Continuation ι α β) (blind : Blind next)
    (input : List α) (caps : Captures ι α) :
    (exec regex next input caps).isSome <-> Accepts regex.Matches next input caps := by
  induction regex generalizing next input caps with
  | eps =>
    rw [exec]
    constructor
    · exact fun succeeds => ⟨[], input, rfl, rfl, succeeds⟩
    · rintro ⟨_, rest, rfl, rfl, succeeds⟩
      exact succeeds
  | chars test =>
    constructor
    · intro succeeds
      cases input with
      | nil => cases succeeds
      | cons letter rest =>
        rw [exec] at succeeds
        split at succeeds
        next accepted => exact ⟨[letter], rest, rfl, ⟨letter, accepted, rfl⟩, succeeds⟩
        next => cases succeeds
    · rintro ⟨_, rest, rfl, ⟨letter, accepted, rfl⟩, succeeds⟩
      rw [singleton_append, exec, if_pos accepted]
      exact succeeds
  | seq first second ihFirst ihSecond =>
    rw [exec, ihFirst _ (blind_of_accepts (ihSecond next blind) blind)]
    simp only [Accepts, ihSecond next blind, Matches]
    constructor
    · rintro ⟨front, rest, rfl, matched, back, rest, rfl, matched', succeeds⟩
      exact ⟨front ++ back, rest, by simp, ⟨front, back, rfl, matched, matched'⟩, succeeds⟩
    · rintro ⟨_, rest, rfl, ⟨front, back, rfl, matched, matched'⟩, succeeds⟩
      exact ⟨front, back ++ rest, by simp, matched, back, rest, rfl, matched', succeeds⟩
  | alt left right ihLeft ihRight =>
    rw [exec, Option.isSome_or, Bool.or_eq_true, ihLeft next blind, ihRight next blind]
    constructor
    · rintro (⟨text, rest, whole, matched, succeeds⟩ | ⟨text, rest, whole, matched, succeeds⟩)
      · exact ⟨text, rest, whole, Or.inl matched, succeeds⟩
      · exact ⟨text, rest, whole, Or.inr matched, succeeds⟩
    · rintro ⟨text, rest, whole, matched | matched, succeeds⟩
      · exact Or.inl ⟨text, rest, whole, matched, succeeds⟩
      · exact Or.inr ⟨text, rest, whole, matched, succeeds⟩
  | opt body ih =>
    rw [exec, Option.isSome_or, Bool.or_eq_true, ih next blind]
    constructor
    · rintro (⟨text, rest, whole, matched, succeeds⟩ | succeeds)
      · exact ⟨text, rest, whole, Or.inr matched, succeeds⟩
      · exact ⟨[], input, rfl, Or.inl rfl, succeeds⟩
    · rintro ⟨text, rest, rfl, rfl | matched, succeeds⟩
      · exact Or.inr succeeds
      · exact Or.inl ⟨text, rest, rfl, matched, succeeds⟩
  | star body ih => exact repeatMatch_isSome ih blind _ input caps (Nat.lt_succ_self _)
  | group name body ih =>
    rw [exec, ih _ fun rest _ _ => blind rest _ _]
    simp only [Accepts, Matches, blind _ (Captures.set _ _ _) caps]

/-- The matcher finds a match of the whole input exactly when there is one. -/
lemma fullMatch_isSome (input : List α) :
    (fullMatch regex input).isSome <-> regex.Matches input := by
  have blind : Blind fun (rest : List α) (caps : Captures ι α) =>
      if rest.isEmpty then some caps else none := by
    intro rest caps caps'
    cases rest <;> rfl
  rw [fullMatch, exec_isSome regex _ blind]
  constructor
  · rintro ⟨text, rest, rfl, matched, ends⟩
    cases rest with
    | nil => rwa [append_nil]
    | cons letter rest => cases ends
  · exact fun matched => ⟨input, [], by simp, matched, rfl⟩

end Regex

end Uv.Library
