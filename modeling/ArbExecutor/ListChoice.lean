import Mathlib.Tactic

/-!
Three ways of choosing from a list. The first match of a key is the same in any
order, and in any longer list, as long as no key occurs twice. A fold that keeps
each accepted value ends with the last one of them. The running best
under a strict preference is an element that nothing in the list beats, and it
does not depend on the order either when the preference tells all elements apart.
-/

namespace ArbExecutor.ListChoice

section FirstMatch
variable {Item Key : Type} [BEq Key] [LawfulBEq Key] (key : Item → Key)

def Distinct (items : List Item) : Prop := (items.map key).Nodup

variable {key}

theorem first_match_iff {items : List Item} (distinct : Distinct key items) (wanted : Key) (item : Item) :
    items.find? (fun item => key item == wanted) = some item ↔ item ∈ items ∧ key item = wanted := by
  constructor
  · intro found
    exact ⟨List.mem_of_find?_eq_some found, by simpa using List.find?_some found⟩
  · rintro ⟨member, matched⟩
    cases found : items.find? (fun item => key item == wanted) with
    | none =>
        have missed := List.find?_eq_none.mp found item member
        simp [matched] at missed
    | some other =>
        have otherMatched : key other = wanted := by simpa using List.find?_some found
        rw [List.inj_on_of_nodup_map distinct (List.mem_of_find?_eq_some found) member
          (otherMatched.trans matched.symm)]

theorem first_match_perm {left right : List Item} (distinct : Distinct key left)
    (perm : left.Perm right) (wanted : Key) :
    left.find? (fun item => key item == wanted) = right.find? (fun item => key item == wanted) := by
  have distinctRight : Distinct key right := (perm.map key).nodup_iff.mp distinct
  ext item
  rw [first_match_iff distinct, first_match_iff distinctRight, perm.mem_iff]

theorem first_match_subset {fewer items : List Item} (distinctFewer : Distinct key fewer)
    (distinct : Distinct key items) (subset : fewer ⊆ items) {wanted : Key} {item : Item}
    (found : fewer.find? (fun item => key item == wanted) = some item) :
    items.find? (fun item => key item == wanted) = some item := by
  rw [first_match_iff distinctFewer] at found
  rw [first_match_iff distinct]
  exact ⟨subset found.1, found.2⟩

end FirstMatch

section LastMatch
variable {Item Value : Type} (accepts : Item → Prop) [DecidablePred accepts] (value : Item → Value)

/-- A fold that keeps the value of every accepted item ends with the last of them. -/
theorem fold_last_match (items : List Item) (start : Value) :
    (∃ before item after, items = before ++ item :: after ∧ accepts item ∧
        (∀ later ∈ after, ¬ accepts later) ∧
        items.foldl (fun kept item => if accepts item then value item else kept) start = value item) ∨
      (∀ item ∈ items, ¬ accepts item) ∧
        items.foldl (fun kept item => if accepts item then value item else kept) start = start := by
  induction items generalizing start with
  | nil => exact .inr ⟨fun _ member => absurd member List.not_mem_nil, rfl⟩
  | cons first rest ih =>
      rcases ih (if accepts first then value first else start) with
        ⟨before, item, after, split, accepted, last, kept⟩ | ⟨none, kept⟩
      · exact .inl ⟨first :: before, item, after, by rw [split, List.cons_append], accepted, last, kept⟩
      · by_cases accepted : accepts first
        · rw [if_pos accepted] at kept
          exact .inl ⟨[], first, rest, rfl, accepted, none, by rwa [List.foldl_cons, if_pos accepted]⟩
        · rw [if_neg accepted] at kept
          refine .inr ⟨fun item member => ?_, by rwa [List.foldl_cons, if_neg accepted]⟩
          rcases List.mem_cons.mp member with rfl | later
          · exact accepted
          · exact none item later

end LastMatch

section RunningBest
variable {Item : Type} (better : Item → Item → Bool)

/-- A strict preference: nothing beats itself, and beating is transitive. -/
structure Preference : Prop where
  irreflexive : ∀ item, better item item = false
  transitive : ∀ first second third, better first second = true → better second third = true →
    better first third = true

def keepBest (best : Option Item) (item : Item) : Option Item :=
  if best.all fun current => better item current then some item else best

def bestOf (items : List Item) : Option Item := items.foldl (keepBest better) none

/-- What a running best knows about the items it has seen. -/
def BestSoFar (seen : List Item) : Option Item → Prop
  | none => seen = []
  | some best => best ∈ seen ∧ ∀ item ∈ seen, better item best = false

variable {better}

theorem keep_best_step (preference : Preference better) (seen : List Item) (best : Option Item)
    (item : Item) (invariant : BestSoFar better seen best) :
    BestSoFar better (seen ++ [item]) (keepBest better best item) := by
  unfold keepBest
  cases best with
  | none =>
      obtain rfl : seen = [] := invariant
      exact ⟨by simp, fun other member => by
        rw [List.mem_singleton.mp member]; exact preference.irreflexive item⟩
  | some current =>
      obtain ⟨member, unbeaten⟩ := invariant
      rw [Option.all_some]
      split
      next wins =>
        refine ⟨by simp, fun other within => ?_⟩
        rcases List.mem_append.mp within with earlier | last
        · by_contra beats
          have beats : better other item = true := by simpa using beats
          -- What beats the new best would have beaten the old one too.
          have chain := preference.transitive other item current beats wins
          rw [unbeaten other earlier] at chain
          cases chain
        · rw [List.mem_singleton.mp last]
          exact preference.irreflexive item
      next loses =>
        refine ⟨by simp [member], fun other within => ?_⟩
        rcases List.mem_append.mp within with earlier | last
        · exact unbeaten other earlier
        · rw [List.mem_singleton.mp last]
          simpa using loses

theorem best_of_invariant (preference : Preference better) (items : List Item) :
    BestSoFar better items (bestOf better items) := by
  suffices run : ∀ rest seen best, BestSoFar better seen best →
      BestSoFar better (seen ++ rest) (rest.foldl (keepBest better) best) from
    run items [] none rfl
  intro rest
  induction rest with
  | nil => intro seen best invariant; simpa using invariant
  | cons item rest ih =>
      intro seen best invariant
      have next := ih _ _ (keep_best_step preference seen best item invariant)
      rwa [List.append_assoc, List.singleton_append] at next

theorem best_of_some (preference : Preference better) {items : List Item} {best : Item}
    (chosen : bestOf better items = some best) :
    best ∈ items ∧ ∀ item ∈ items, better item best = false := by
  have invariant := best_of_invariant preference items
  rw [chosen] at invariant
  exact invariant

theorem best_of_none (preference : Preference better) {items : List Item} :
    bestOf better items = none ↔ items = [] := by
  constructor
  · intro chosen
    have invariant := best_of_invariant preference items
    rw [chosen] at invariant
    exact invariant
  · rintro rfl
    rfl

/-- Lists with the same elements have the same best, if ties are between equals. -/
theorem best_of_same_members (preference : Preference better) {left right : List Item}
    (same : ∀ item, item ∈ left ↔ item ∈ right)
    (separated : ∀ first ∈ left, ∀ second ∈ left, better first second = false →
      better second first = false → first = second) :
    bestOf better left = bestOf better right := by
  cases chosenLeft : bestOf better left with
  | none =>
      have empty := (best_of_none preference).mp chosenLeft
      have emptyRight : right = [] :=
        List.eq_nil_iff_forall_not_mem.mpr fun item member => by
          have inside := (same item).mpr member
          rw [empty] at inside
          cases inside
      rw [emptyRight]
      rfl
  | some best =>
      obtain ⟨member, unbeaten⟩ := best_of_some preference chosenLeft
      cases chosenRight : bestOf better right with
      | none =>
          have inside := (same best).mp member
          rw [(best_of_none preference).mp chosenRight] at inside
          cases inside
      | some other =>
          obtain ⟨otherMember, otherUnbeaten⟩ := best_of_some preference chosenRight
          exact congrArg some (separated best member other ((same other).mpr otherMember)
            (otherUnbeaten best ((same best).mp member)) (unbeaten other ((same other).mpr otherMember)))

end RunningBest

/-! The running best by a measure is the first of the greatest. -/
section FirstGreatest
variable {Item Group : Type} (measure : Item → Nat)

def greater (item other : Item) : Bool := measure other < measure item

def FirstGreatest (items : List Item) (best : Item) : Prop :=
  ∃ before after, items = before ++ best :: after ∧ (∀ item ∈ before, measure item < measure best) ∧
    ∀ item ∈ after, measure item ≤ measure best

variable {measure}

theorem best_of_snoc (better : Item → Item → Bool) (items : List Item) (last : Item) :
    bestOf better (items ++ [last]) = keepBest better (bestOf better items) last := by
  unfold bestOf
  rw [List.foldl_append]
  rfl

theorem greatest_le {items : List Item} {best : Item} (first : FirstGreatest measure items best) :
    best ∈ items ∧ ∀ item ∈ items, measure item ≤ measure best := by
  obtain ⟨before, after, rfl, smaller, least⟩ := first
  refine ⟨List.mem_append_right _ List.mem_cons_self, fun item member => ?_⟩
  rcases List.mem_append.mp member with earlier | here
  · exact (smaller item earlier).le
  · rcases List.mem_cons.mp here with rfl | later
    · exact le_rfl
    · exact least item later

theorem best_of_greater (items : List Item) :
    (bestOf (greater measure) items = none ∧ items = []) ∨
      ∃ best, bestOf (greater measure) items = some best ∧ FirstGreatest measure items best := by
  induction items using List.reverseRecOn with
  | nil => exact .inl ⟨rfl, rfl⟩
  | append_singleton items last ih =>
      refine .inr ?_
      rw [best_of_snoc]
      rcases ih with ⟨none, rfl⟩ | ⟨best, chosen, first⟩
      · rw [none]
        exact ⟨last, rfl, [], [], rfl, fun _ member => absurd member List.not_mem_nil,
          fun _ member => absurd member List.not_mem_nil⟩
      · rw [chosen]
        unfold keepBest greater
        rw [Option.all_some]
        by_cases wins : measure best < measure last
        · rw [if_pos (decide_eq_true wins)]
          exact ⟨last, rfl, items, [], rfl, fun item member => ((greatest_le first).2 item member).trans_lt wins,
            fun _ member => absurd member List.not_mem_nil⟩
        · rw [if_neg (by rw [decide_eq_true_eq]; exact wins)]
          obtain ⟨before, after, rfl, smaller, least⟩ := first
          refine ⟨best, rfl, before, after ++ [last], by simp, smaller, fun item member => ?_⟩
          rcases List.mem_append.mp member with earlier | single
          · exact least item earlier
          · rw [List.mem_singleton.mp single]
            exact Nat.le_of_not_lt wins

/-- An element of a list made of groups stands in one of them, and what the list
has around it is the rest of that group and the other groups. -/
theorem group_of_split {groups : List Group} {members : Group → List Item} {before after : List Item}
    {item : Item} (split : groups.flatMap members = before ++ item :: after) :
    ∃ earlier group later own rest, groups = earlier ++ group :: later ∧
      members group = own ++ item :: rest ∧ before = earlier.flatMap members ++ own ∧
      after = rest ++ later.flatMap members := by
  induction groups generalizing before with
  | nil => cases before <;> cases split
  | cons group others ih =>
      rw [List.flatMap_cons] at split
      -- The group ends somewhere before the element, or the element is one of its own.
      have further (between : List Item) (reached : before = members group ++ between)
          (left : others.flatMap members = between ++ item :: after) :
          ∃ earlier other later own rest, group :: others = earlier ++ other :: later ∧
            members other = own ++ item :: rest ∧ before = earlier.flatMap members ++ own ∧
            after = rest ++ later.flatMap members := by
        obtain ⟨earlier, other, later, own, rest, rfl, found, rfl, rfl⟩ := ih left
        exact ⟨group :: earlier, other, later, own, rest, rfl, found, by simp [reached], rfl⟩
      rcases List.append_eq_append_iff.mp split with ⟨between, reached, left⟩ | ⟨between, reached, left⟩
      · exact further between reached left
      · cases between with
        | nil =>
            rw [List.append_nil] at reached
            rw [List.nil_append] at left
            exact further [] (by rw [reached, List.append_nil]) left.symm
        | cons first rest =>
            obtain ⟨rfl, rfl⟩ := List.cons.inj left
            exact ⟨[], group, others, before, rest, rfl, reached, rfl, rfl⟩

end FirstGreatest

end ArbExecutor.ListChoice
