import Mathlib.Algebra.BigOperators.Group.Finset.Basic
import Mathlib.Algebra.Order.Group.Multiset
import Mathlib.Logic.Function.Basic

/-!
# Handing items over through a slot

A giver and any number of takers share a slot of two registers, each written by itself: the name of the party that the content is
for, and the content. The giver fills a slot that it finds empty and names a taker afterwards; the party named takes the item,
withdraws its name and empties the slot last. Nobody holds a lock. `Sound` lists the phases that a slot passes through: what the
registers hold says who may stand where. Every step keeps it, and accounts for the items it puts in and takes out.
-/

namespace HandOff

variable {ι τ : Type*}

/-- What the second register holds: nothing, the mark of a failed attempt to get an item, or an item. -/
inductive Content (τ : Type*) where
  | empty
  | failed
  | item (x : τ)
  deriving DecidableEq

/-- The items in a register. -/
def Content.items : Content τ → Multiset τ
  | .item x => {x}
  | _ => 0

@[simp] theorem items_empty : (Content.empty : Content τ).items = 0 := rfl

@[simp] theorem items_failed : (Content.failed : Content τ).items = 0 := rfl

@[simp] theorem items_item (x : τ) : (Content.item x).items = {x} := rfl

/-- The items in a list of registers. -/
def itemsIn (cs : List (Content τ)) : Multiset τ := (cs.map Content.items).sum

@[simp] theorem itemsIn_nil : itemsIn ([] : List (Content τ)) = 0 := rfl

@[simp] theorem itemsIn_cons (c : Content τ) (cs : List (Content τ)) : itemsIn (c :: cs) = c.items + itemsIn cs := by
  simp [itemsIn]

@[simp] theorem itemsIn_append (cs ds : List (Content τ)) : itemsIn (cs ++ ds) = itemsIn cs + itemsIn ds := by
  simp [itemsIn]

theorem mem_itemsIn {x : τ} {cs : List (Content τ)} : x ∈ itemsIn cs ↔ .item x ∈ cs := by
  induction cs with
  | nil => simp
  | cons c cs ih =>
    rw [itemsIn_cons, Multiset.mem_add, ih, List.mem_cons]
    cases c with
    | empty => simp
    | failed => simp
    | item y => simp

/-- Registers that all hold items are as many as the items. -/
theorem coe_eq_map_itemsIn {cs : List (Content τ)} (h : ∀ c ∈ cs, ∃ x, c = .item x) :
    (cs : Multiset (Content τ)) = (itemsIn cs).map .item := by
  induction cs with
  | nil => rfl
  | cons c cs ih =>
    obtain ⟨x, rfl⟩ := h c (List.mem_cons_self ..)
    rw [itemsIn_cons, items_item, Multiset.map_add, Multiset.map_singleton, Multiset.singleton_add, ← Multiset.cons_coe,
      ih fun c hc => h c (List.mem_cons_of_mem _ hc)]

/-- They are all different if the items are. -/
theorem nodup_of_itemsIn {cs : List (Content τ)} (h : ∀ c ∈ cs, ∃ x, c = .item x) (hn : (itemsIn cs).Nodup) : cs.Nodup := by
  rw [← Multiset.coe_nodup, coe_eq_map_itemsIn h]
  exact hn.map fun x y hxy => Content.item.inj hxy

/-- Where the giver stands at a slot: before it withdraws the name, fills the slot, looks whether that failed, takes the mark of a
failure away, or names a taker. -/
inductive Giving where
  | clearing
  | filling
  | testing
  | resetting
  | naming
  deriving DecidableEq

/-- Where a taker stands at a slot: it has read its name, has taken the item, or has withdrawn its name as well. -/
inductive Taking where
  | holding
  | spent
  | cleared
  deriving DecidableEq

/-- The registers of a slot, and where each party stands at it. -/
@[ext] structure Slot (ι τ : Type*) where
  owner : Option ι
  content : Content τ
  giver : Option Giving
  taker : ι → Option Taking

/-- What a step does to the items in the slot. -/
inductive Label (τ : Type*) where
  | silent
  | put (x : τ)
  | take (x : τ)

/-- The items that a step puts in. -/
def Label.given : Label τ → Multiset τ
  | .put x => {x}
  | _ => 0

/-- The items that a step takes out. -/
def Label.taken : Label τ → Multiset τ
  | .take x => {x}
  | _ => 0

@[simp] theorem given_silent : (Label.silent : Label τ).given = 0 := rfl

@[simp] theorem given_put (x : τ) : (Label.put x).given = {x} := rfl

@[simp] theorem given_take (x : τ) : (Label.take x).given = 0 := rfl

@[simp] theorem taken_silent : (Label.silent : Label τ).taken = 0 := rfl

@[simp] theorem taken_put (x : τ) : (Label.put x).taken = 0 := rfl

@[simp] theorem taken_take (x : τ) : (Label.take x).taken = {x} := rfl

/-- A taker has taken the item that is in the slot. -/
def Slot.Spent (s : Slot ι τ) : Prop := ∃ i, s.taker i = some .spent ∨ s.taker i = some .cleared

open Classical in
/-- The items that are in the slot and nowhere else. -/
noncomputable def Slot.live (s : Slot ι τ) : Multiset τ := if s.Spent then 0 else s.content.items

theorem live_rest (o : Option ι) (c : Content τ) (g : Option Giving) :
    (Slot.mk o c g (fun _ : ι => none)).live = c.items := by
  rw [Slot.live, if_neg]
  rintro ⟨i, hi | hi⟩
  · cases hi
  · cases hi

/-- A slot that nobody takes from holds its item. -/
theorem Slot.live_of_no_taker {s : Slot ι τ} (h : ∀ i, s.taker i = none) : s.live = s.content.items := by
  obtain ⟨o, c, g, t⟩ := s
  obtain rfl : t = fun _ => none := funext h
  exact live_rest o c g

variable [DecidableEq ι]

/-- The steps of the parties at a slot. -/
inductive Slot.Step : Slot ι τ → Label τ → Slot ι τ → Prop where
  | look {s : Slot ι τ} (hg : s.giver = none) (hc : s.content = .empty) : Step s .silent { s with giver := some .clearing }
  | clear {s : Slot ι τ} (hg : s.giver = some .clearing) : Step s .silent { s with owner := none, giver := some .filling }
  | fill {s : Slot ι τ} (hg : s.giver = some .filling) (x : τ) :
    Step s (.put x) { s with content := .item x, giver := some .testing }
  | fail {s : Slot ι τ} (hg : s.giver = some .filling) : Step s .silent { s with content := .failed, giver := some .testing }
  | seeFailed {s : Slot ι τ} (hg : s.giver = some .testing) (hc : s.content = .failed) :
    Step s .silent { s with giver := some .resetting }
  | seeFilled {s : Slot ι τ} (hg : s.giver = some .testing) (hc : s.content ≠ .failed) :
    Step s .silent { s with giver := some .naming }
  | reset {s : Slot ι τ} (hg : s.giver = some .resetting) : Step s .silent { s with content := .empty, giver := none }
  | name {s : Slot ι τ} (hg : s.giver = some .naming) (o : Option ι) : Step s .silent { s with owner := o, giver := none }
  | claim {s : Slot ι τ} {i : ι} (ht : s.taker i = none) (ho : s.owner = some i) :
    Step s .silent { s with taker := Function.update s.taker i (some .holding) }
  | take {s : Slot ι τ} {i : ι} (ht : s.taker i = some .holding) {x : τ} (hc : s.content = .item x) :
    Step s (.take x) { s with taker := Function.update s.taker i (some .spent) }
  | pass {s : Slot ι τ} {i : ι} (ht : s.taker i = some .holding) (o : Option ι) :
    Step s .silent { s with owner := o, taker := Function.update s.taker i none }
  | withdraw {s : Slot ι τ} {i : ι} (ht : s.taker i = some .spent) :
    Step s .silent { s with owner := none, taker := Function.update s.taker i (some .cleared) }
  | vacate {s : Slot ι τ} {i : ι} (ht : s.taker i = some .cleared) :
    Step s .silent { s with content := .empty, taker := Function.update s.taker i none }

/-- A step of a party at the slot, or of one that is not at it. -/
def Slot.Moves (s : Slot ι τ) (l : Label τ) (s' : Slot ι τ) : Prop := s.Step l s' ∨ l = .silent ∧ s' = s

/-- The name in the slot, by where the taker at it stands. -/
def Taking.owner (i : ι) : Taking → Option ι
  | .cleared => none
  | _ => some i

/-- What the content is, by where the giver stands. -/
def Giving.Fits (c : Content τ) : Giving → Prop
  | .clearing | .filling => c = .empty
  | .testing => c ≠ .empty
  | .resetting => c = .failed
  | .naming => ∃ x, c = .item x

/-- The phases of a slot: nobody is at it, and a slot without an item bears no name; the giver is, alone, and there is no name; or one
taker is, at an item. -/
inductive Slot.Sound : Slot ι τ → Prop where
  | rest {o : Option ι} {c : Content τ} (ho : c = .empty → o = none) (hc : c ≠ .failed) : Sound ⟨o, c, none, fun _ => none⟩
  | given {c : Content τ} (g : Giving) (h : g.Fits c) : Sound ⟨none, c, some g, fun _ => none⟩
  | taken (i : ι) (t : Taking) (x : τ) : Sound ⟨t.owner i, .item x, none, Function.update (fun _ => none) i (some t)⟩

/-! ## The rules -/

/-- Who is found at a slot with one taker. -/
theorem eq_of_update_some {i j : ι} {t u : Taking} (h : Function.update (fun _ => none) i (some t) j = some u) : j = i ∧ t = u := by
  by_cases hj : j = i
  · subst hj
    rw [Function.update_self] at h
    exact ⟨rfl, Option.some.inj h⟩
  · rw [Function.update_of_ne hj] at h
    cases h

/-- The one taker of a slot leaves. -/
theorem update_leave (i : ι) (t : Taking) :
    Function.update (Function.update (fun _ => none) i (some t)) i none = (fun _ : ι => (none : Option Taking)) := by
  rw [Function.update_idem, Function.update_eq_self]

theorem live_taken (o : Option ι) (x : τ) (g : Option Giving) (i : ι) (t : Taking) :
    (Slot.mk o (.item x) g (Function.update (fun _ => none) i (some t))).live = if t = .holding then {x} else 0 := by
  rw [Slot.live]
  cases t with
  | holding =>
    rw [if_neg, if_pos rfl]
    · rfl
    · rintro ⟨j, hj | hj⟩
      · cases (eq_of_update_some hj).2
      · cases (eq_of_update_some hj).2
  | spent =>
    rw [if_pos ⟨i, Or.inl (by simp)⟩]
    rfl
  | cleared =>
    rw [if_pos ⟨i, Or.inr (by simp)⟩]
    rfl

/-- Every step leads from one phase to another, and what is in the slot afterwards and what was taken out is what was in it before and
what was put in. -/
theorem Slot.Step.keeps {s s' : Slot ι τ} {l : Label τ} (h : s.Step l s') (hs : s.Sound) :
    s'.Sound ∧ s'.live + l.taken = s.live + l.given := by
  cases hs with
  | @rest o c ho hc =>
    cases h with
    | look hg he =>
      obtain rfl : c = .empty := he
      rw [ho rfl]
      exact ⟨.given .clearing rfl, by simp only [live_rest]; rfl⟩
    | claim ht hi =>
      obtain rfl : o = some _ := hi
      cases c with
      | empty => cases ho rfl
      | failed => exact absurd rfl hc
      | item x => exact ⟨.taken _ .holding x, by simp only [live_rest, live_taken, if_true]; rfl⟩
    | clear hg | fill hg | fail hg | seeFailed hg | seeFilled hg | reset hg | name hg => cases hg
    | take ht | pass ht | withdraw ht | vacate ht => cases ht
  | @given c g hfits =>
    cases h with
    | look hg => cases hg
    | clear hg =>
      obtain rfl := Option.some.inj hg
      exact ⟨.given .filling hfits, by simp only [live_rest]; rfl⟩
    | fill hg x =>
      obtain rfl := Option.some.inj hg
      obtain rfl : c = .empty := hfits
      exact ⟨.given .testing (by simp [Giving.Fits]), by simp only [live_rest]; exact (zero_add _).symm⟩
    | fail hg =>
      obtain rfl := Option.some.inj hg
      obtain rfl : c = .empty := hfits
      exact ⟨.given .testing (by simp [Giving.Fits]), by simp only [live_rest]; rfl⟩
    | seeFailed hg hc => exact ⟨.given .resetting hc, by simp only [live_rest]; rfl⟩
    | seeFilled hg hc =>
      obtain rfl := Option.some.inj hg
      cases c with
      | empty => exact absurd rfl hfits
      | failed => exact absurd rfl hc
      | item x => exact ⟨.given .naming ⟨x, rfl⟩, by simp only [live_rest]; rfl⟩
    | reset hg =>
      obtain rfl := Option.some.inj hg
      obtain rfl : c = .failed := hfits
      exact ⟨.rest (fun _ => rfl) (by simp), by simp only [live_rest]; rfl⟩
    | name hg o =>
      obtain rfl := Option.some.inj hg
      obtain ⟨x, rfl⟩ := hfits
      exact ⟨.rest (by simp) (by simp), by simp only [live_rest]; rfl⟩
    | claim ht ho => cases ho
    | take ht | pass ht | withdraw ht | vacate ht => cases ht
  | taken i t x =>
    cases h with
    | look hg hc => cases hc
    | clear hg | fill hg | fail hg | seeFailed hg | seeFilled hg | reset hg | name hg => cases hg
    | claim ht ho =>
      -- the name in the slot is that of the taker that is at it, so nobody else reads its own
      cases t with
      | cleared => cases ho
      | holding | spent =>
        obtain rfl := Option.some.inj ho
        simp only [Function.update_self] at ht
        cases ht
    | take ht hc =>
      obtain ⟨rfl, rfl⟩ := eq_of_update_some ht
      obtain rfl := Content.item.inj hc
      simp only [Function.update_idem, live_taken]
      exact ⟨.taken _ .spent _, by simp only [if_true]; exact add_comm _ _⟩
    | pass ht o =>
      obtain ⟨rfl, rfl⟩ := eq_of_update_some ht
      simp only [update_leave, live_rest, live_taken, if_true]
      exact ⟨.rest (by simp) (by simp), rfl⟩
    | withdraw ht =>
      obtain ⟨rfl, rfl⟩ := eq_of_update_some ht
      simp only [Function.update_idem, live_taken]
      exact ⟨.taken _ .cleared x, rfl⟩
    | vacate ht =>
      obtain ⟨rfl, rfl⟩ := eq_of_update_some ht
      simp only [update_leave, live_rest, live_taken]
      exact ⟨.rest (fun _ => rfl) (by simp), rfl⟩

theorem Slot.Moves.keeps {s s' : Slot ι τ} {l : Label τ} (h : s.Moves l s') (hs : s.Sound) :
    s'.Sound ∧ s'.live + l.taken = s.live + l.given := by
  rcases h with h | ⟨rfl, rfl⟩
  · exact h.keeps hs
  · exact ⟨hs, rfl⟩

/-- What a step of many slots at once puts in and takes out. -/
theorem sum_live {κ : Type*} {S : Finset κ} {slot slot' : κ → Slot ι τ} {label : κ → Label τ}
    (h : ∀ j ∈ S, (slot j).Moves (label j) (slot' j)) (hs : ∀ j ∈ S, (slot j).Sound) :
    ∑ j ∈ S, (slot' j).live + ∑ j ∈ S, (label j).taken = ∑ j ∈ S, (slot j).live + ∑ j ∈ S, (label j).given := by
  rw [← Finset.sum_add_distrib, ← Finset.sum_add_distrib]
  exact Finset.sum_congr rfl fun j hj => ((h j hj).keeps (hs j hj)).2

/-! ## What the phases say -/

/-- A taker that stands at a slot stands at an item. -/
theorem Slot.Sound.content_of_taker {s : Slot ι τ} (hs : s.Sound) {i : ι} {t : Taking} (h : s.taker i = some t) :
    ∃ x, s.content = .item x := by
  cases hs with
  | rest => cases h
  | given => cases h
  | taken j u x => exact ⟨x, rfl⟩

/-- What a taker finds that has read its name is in the slot and nowhere else. -/
theorem Slot.Sound.live_of_holding {s : Slot ι τ} (hs : s.Sound) {i : ι} (h : s.taker i = some .holding) :
    ∃ x, s.content = .item x ∧ s.live = {x} := by
  cases hs with
  | rest => cases h
  | given => cases h
  | taken j u x =>
    obtain ⟨-, rfl⟩ := eq_of_update_some h
    exact ⟨x, rfl, by rw [live_taken, if_pos rfl]⟩

/-- While the giver is at a slot what it holds is nowhere else. -/
theorem Slot.Sound.live_of_giver {s : Slot ι τ} (hs : s.Sound) {g : Giving} (h : s.giver = some g) : s.live = s.content.items := by
  cases hs with
  | rest => cases h
  | given => exact live_rest _ _ _
  | taken => cases h

/-- While the giver is at a slot nobody is named in it. -/
theorem Slot.Sound.owner_of_giver {s : Slot ι τ} (hs : s.Sound) {g : Giving} (h : s.giver = some g) : s.owner = none := by
  cases hs with
  | rest => cases h
  | given => rfl
  | taken => cases h

/-- What is in the slot, by where the giver stands. -/
theorem Slot.Sound.fits {s : Slot ι τ} (hs : s.Sound) {g : Giving} (h : s.giver = some g) : g.Fits s.content := by
  cases hs with
  | rest => cases h
  | given g' hfits =>
    obtain rfl := Option.some.inj h
    exact hfits
  | taken => cases h

/-- A slot that the giver is not at bears no mark of a failure. -/
theorem Slot.Sound.not_failed {s : Slot ι τ} (hs : s.Sound) (h : s.giver = none) : s.content ≠ .failed := by
  cases hs with
  | rest ho hc => exact hc
  | given => cases h
  | taken => simp

end HandOff
