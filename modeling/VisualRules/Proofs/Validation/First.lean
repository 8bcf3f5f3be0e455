import Mathlib.Data.List.Induction
import VisualRules.Proofs.Validation.Condition

/-!
# First faults

How the scans of the checks find the first entry at fault of a list: by a
search with a test for single entries, by a set of what has been seen before,
or because a conversion of the entries stops at one.
-/

namespace VisualRules

variable {α β : Type} {fault : List α → α → Prop} {l before : List α} {a : α}

/-! ## Lists without a fault -/

theorem free_nil : Free fault [] := by
  intro before a after h
  cases before <;> cases h

theorem free_concat : Free fault (l ++ [a]) ↔ Free fault l ∧ ¬ fault l a := by
  constructor
  · intro h
    refine ⟨fun before b after hl => ?_, h l a [] rfl⟩
    exact h before b (after ++ [a]) (by simp [hl])
  · rintro ⟨hfree, ha⟩ before b after hl
    rcases List.eq_nil_or_concat after with rfl | ⟨after, c, rfl⟩
    · obtain ⟨rfl, hb⟩ := List.append_inj' hl rfl
      cases hb
      exact ha
    · have hl' : l ++ [a] = (before ++ b :: after) ++ [c] := by simp [hl]
      exact hfree before b after (List.append_inj' hl' rfl).1

theorem free_iff_forall {fault : α → Prop} :
    Free (fun _ => fault) l ↔ ∀ a ∈ l, ¬ fault a := by
  constructor
  · intro h a ha
    obtain ⟨before, after, rfl⟩ := List.append_of_mem ha
    exact h before a after rfl
  · rintro h before a after rfl
    exact h a (by simp)

theorem free_or {fault' : List α → α → Prop} :
    Free (fun before a => fault before a ∨ fault' before a) l
      ↔ Free fault l ∧ Free fault' l := by
  constructor
  · intro h
    exact ⟨fun before a after hl hf => h before a after hl (.inl hf),
      fun before a after hl hf => h before a after hl (.inr hf)⟩
  · rintro ⟨h, h'⟩ before a after hl hf
    rcases hf with hf | hf
    · exact h before a after hl hf
    · exact h' before a after hl hf

/-- No entry repeats an earlier one exactly when all are different. -/
theorem free_repeat_iff (f : α → β) :
    Free (fun before a => f a ∈ before.map f) l ↔ (l.map f).Nodup := by
  induction l using List.reverseRecOn with
  | nil => simp [free_nil]
  | append_singleton l a ih =>
      rw [free_concat, ih, List.map_append, List.nodup_append]
      simp only [List.map_cons, List.map_nil, List.nodup_cons, List.not_mem_nil,
        not_false_eq_true, List.nodup_nil, and_self, true_and, List.mem_singleton]
      refine and_congr_right fun _ => ⟨fun ha x hx y hy hxy => ha ?_, fun h ha => ?_⟩
      · rw [← hy, ← hxy]
        exact hx
      · exact h _ ha _ rfl rfl

/-! ## The first fault -/

theorem First.mem (h : First fault l before a) : a ∈ l := by
  obtain ⟨after, rfl⟩ := h.stands
  simp

theorem First.not_free (h : First fault l before a) : ¬ Free fault l := by
  obtain ⟨after, rfl⟩ := h.stands
  exact fun hfree => hfree before a after rfl h.faulty

theorem First.congr {fault' : List α → α → Prop} (h : First fault l before a)
    (hf : ∀ before, ∀ b ∈ l, fault before b ↔ fault' before b) :
    First fault' l before a := by
  obtain ⟨after, rfl⟩ := h.stands
  refine ⟨⟨after, rfl⟩, (hf before a (by simp)).mp h.faulty, ?_⟩
  rintro pre b post rfl hb
  exact h.free pre b post rfl ((hf pre b (by simp)).mpr hb)

/-- A first fault of a list is one of the list of what its entries are made
from. -/
theorem First.of_map {f : β → α} {l : List β} (h : First fault (l.map f) before a) :
    ∃ before' b, First (fun bs b => fault (bs.map f) (f b)) l before' b
      ∧ before'.map f = before ∧ f b = a := by
  obtain ⟨after, hl⟩ := h.stands
  obtain ⟨before', rest, rfl, rfl, hrest⟩ := List.map_eq_append_iff.mp hl
  obtain ⟨b, after', rfl, rfl, -⟩ := List.map_eq_cons_iff.mp hrest
  refine ⟨before', b, ⟨⟨after', rfl⟩, h.faulty, ?_⟩, rfl, rfl⟩
  rintro pre c post rfl hc
  exact h.free (pre.map f) (f c) (post.map f) (by simp) hc

theorem First.map {f : β → α} {l before : List β} {b : β}
    (h : First (fun bs b => fault (bs.map f) (f b)) l before b) :
    First fault (l.map f) (before.map f) (f b) := by
  obtain ⟨after, rfl⟩ := h.stands
  refine ⟨⟨after.map f, by simp⟩, h.faulty, ?_⟩
  intro pre c post hpre
  obtain ⟨pre', rest, rfl, rfl, hrest⟩ := List.map_eq_append_iff.mp hpre
  obtain ⟨c', post', rfl, rfl, -⟩ := List.map_eq_cons_iff.mp hrest
  exact h.free pre' c' post' rfl

/-! ## Scans -/

theorem first_of_split {fault : α → Prop} (after : List α)
    (hl : l = before ++ a :: after) (ha : fault a) (hb : ∀ b ∈ before, ¬ fault b) :
    First (fun _ => fault) l before a :=
  ⟨⟨after, hl⟩, ha, free_iff_forall.mpr hb⟩

theorem first_of_findIdx? {p : α → Bool} {fault : α → Prop} {i : Nat}
    (hp : ∀ a, p a = true ↔ fault a) (h : l.findIdx? p = some i) :
    ∃ before a, First (fun _ => fault) l before a ∧ before.length = i := by
  obtain ⟨hlt, ha, hb⟩ := List.findIdx?_eq_some_iff_getElem.mp h
  have hl : l = l.take i ++ l[i] :: l.drop (i + 1) := by
    rw [← List.drop_eq_getElem_cons hlt, List.take_append_drop]
  refine ⟨l.take i, l[i], first_of_split _ hl ((hp _).mp ha) fun b hmem hfault => ?_, ?_⟩
  · obtain ⟨j, hj, rfl⟩ := List.mem_take_iff_getElem.mp hmem
    exact hb j (by omega) ((hp _).mpr hfault)
  · rw [List.length_take]
    omega

theorem first_of_findSome? {f : α → Option β} {fault : α → Prop} {b : β}
    (hf : ∀ a, fault a ↔ f a ≠ none) (h : l.findSome? f = some b) :
    ∃ before a, First (fun _ => fault) l before a ∧ f a = some b := by
  obtain ⟨before, a, after, hl, ha, hb⟩ := List.findSome?_eq_some_iff.mp h
  refine ⟨before, a, first_of_split _ hl ((hf a).mpr (by simp [ha])) ?_, ha⟩
  intro c hc hfault
  exact (hf c).mp hfault (hb c hc)

theorem first_of_find? {p : α → Bool} {fault : α → Prop} (hp : ∀ a, p a = true ↔ fault a)
    (h : l.find? p = some a) : ∃ before, First (fun _ => fault) l before a := by
  obtain ⟨ha, before, after, hl, hb⟩ := List.find?_eq_some_iff_append.mp h
  refine ⟨before, first_of_split _ hl ((hp a).mp ha) fun c hc hfault => ?_⟩
  have hc' := hb c hc
  rw [(hp c).mpr hfault] at hc'
  cases hc'

/-! ## Numbered conditions -/

section Numbered

variable {ι : Type} {number : ι → Nat} {holds : ι → Prop} {i j : ι}

theorem holdsBefore_first (hi : ∀ j, number i ≤ number j) : HoldsBefore number holds i := by
  intro j hj
  exact absurd hj (Nat.not_lt.mpr (hi j))

theorem HoldsBefore.next (hnumber : number.Injective) (h : HoldsBefore number holds i)
    (hi : holds i) (hj : number j = number i + 1) : HoldsBefore number holds j := by
  intro k hk
  by_cases hlt : number k < number i
  · exact h k hlt
  · have heq : k = i := hnumber (by omega)
    rw [heq]
    exact hi

theorem HoldsBefore.all (hnumber : number.Injective) (h : HoldsBefore number holds i)
    (hi : holds i) (hlast : ∀ j, number j ≤ number i) : ∀ j, holds j := by
  intro j
  by_cases hlt : number j < number i
  · exact h j hlt
  · have heq : j = i := hnumber (Nat.le_antisymm (hlast j) (Nat.not_lt.mp hlt))
    rw [heq]
    exact hi

end Numbered

/-! ## Conversions that can fail -/

theorem forall₂_of_mapM {ε : Type} {f : α → Except ε β} {bs : List β}
    (h : l.mapM f = .ok bs) : List.Forall₂ (fun a b => f a = .ok b) l bs := by
  induction l generalizing bs with
  | nil =>
      cases h
      exact .nil
  | cons a l ih =>
      rw [List.mapM_cons] at h
      cases ha : f a with
      | error e =>
          rw [ha] at h
          cases h
      | ok b =>
          cases hl : l.mapM f with
          | error e =>
              rw [ha, hl] at h
              cases h
          | ok bs' =>
              rw [ha, hl] at h
              cases h
              exact .cons ha (ih hl)

theorem exists_of_forall₂ {R : α → β → Prop} {bs : List β} (h : List.Forall₂ R l bs)
    (ha : a ∈ l) : ∃ b ∈ bs, R a b := by
  induction h with
  | nil => cases ha
  | @cons a' b _ _ hR _ ih =>
      rcases List.mem_cons.mp ha with rfl | ha
      · exact ⟨b, by simp, hR⟩
      · obtain ⟨b', hb', hR'⟩ := ih ha
        exact ⟨b', by simp [hb'], hR'⟩

/-- A list whose entries are turned back into those of another is turned back
into it. -/
theorem map_eq_of_forall₂ {R : α → β → Prop} {g : β → α} {bs : List β}
    (h : List.Forall₂ R l bs) (hg : ∀ a ∈ l, ∀ b, R a b → g b = a) : bs.map g = l := by
  induction h with
  | nil => rfl
  | cons hR _ ih =>
      rw [List.map_cons, hg _ (by simp) _ hR, ih fun a ha => hg a (by simp [ha])]

/-- A conversion that fails stops at the first entry that cannot be converted. -/
theorem first_of_mapM {ε : Type} {f : α → Except ε β} {fault : α → Prop} {e : ε}
    (hf : ∀ a ∈ l, fault a ↔ ∃ e, f a = .error e) (h : l.mapM f = .error e) :
    ∃ before a, First (fun _ => fault) l before a ∧ f a = .error e := by
  induction l with
  | nil => cases h
  | cons a l ih =>
      rw [List.mapM_cons] at h
      cases ha : f a with
      | error e' =>
          rw [ha] at h
          cases h
          exact ⟨[], a, first_of_split _ rfl ((hf a (by simp)).mpr ⟨e, ha⟩) (by simp), ha⟩
      | ok b =>
          have hnot : ¬ fault a := by
            intro hfault
            obtain ⟨e', he'⟩ := (hf a (by simp)).mp hfault
            rw [ha] at he'
            cases he'
          -- The first entry is converted, so the failure comes from the others.
          cases hl : l.mapM f with
          | ok bs =>
              rw [ha, hl] at h
              cases h
          | error e' =>
              rw [ha, hl] at h
              cases h
              obtain ⟨before, c, hfirst, hc⟩ := ih (fun c hc => hf c (by simp [hc])) hl
              obtain ⟨after, rfl⟩ := hfirst.stands
              refine ⟨a :: before, c, first_of_split after rfl hfirst.faulty ?_, hc⟩
              intro x hx
              rcases List.mem_cons.mp hx with rfl | hx
              · exact hnot
              · exact free_iff_forall.mp hfirst.free x hx

end VisualRules
