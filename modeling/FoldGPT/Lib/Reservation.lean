import Mathlib.Data.List.Dedup
import Mathlib.Data.List.Perm.Subperm

/-!
# Reservations

Identifiers are taken in two steps: one is reserved for a keeper, and while it is reserved the
keeper may enter it into its own registry; the reservation is given up afterwards, whether the
identifier was entered or not. An identifier that is reserved or kept by anyone is not reserved
again.

* `Book.Sound`: no identifier has two keepers, and those reserved or kept are bounded together.
* `Book.Sound.reserve`, `.enter`, `.drop`, `.release`: every operation keeps this.
-/

namespace FoldGPT.Lib

open List

/-- Who is acquiring which identifiers, and who keeps which; `created` is the history of entries,
the last one first. -/
structure Book (κ β : Type) where
  pending : List (κ × β)
  kept : β → List κ
  created : List (κ × β)

namespace Book

variable {κ β : Type}

def empty : Book κ β where
  pending := []
  kept := fun _ => []
  created := []

/-- The reserved identifiers. -/
def names (b : Book κ β) : List κ := b.pending.map Prod.fst

theorem mem_names {b : Book κ β} {k : κ} : k ∈ b.names ↔ ∃ o, (k, o) ∈ b.pending := by
  simp [names]

def reserve (b : Book κ β) (k : κ) (o : β) : Book κ β := { b with pending := (k, o) :: b.pending }

def enter [DecidableEq β] (b : Book κ β) (o : β) (k : κ) : Book κ β :=
  { b with
    kept := Function.update b.kept o (b.kept o ++ [k])
    created := (k, o) :: b.created }

theorem mem_enter [DecidableEq β] {b : Book κ β} {o o' : β} {k k' : κ} :
    k' ∈ (b.enter o k).kept o' ↔ k' ∈ b.kept o' ∨ o' = o ∧ k' = k := by
  by_cases ho : o' = o
  · subst ho
    simp [enter]
  · simp [enter, ho]

variable [DecidableEq κ]

/-- The identifiers that are reserved or kept. -/
def occupied (keepers : List β) (b : Book κ β) : List κ :=
  (b.names ++ keepers.flatMap b.kept).dedup

/-- The keepers that have the identifier. -/
def owners (keepers : List β) (b : Book κ β) (k : κ) : List β :=
  keepers.filter fun o => decide (k ∈ b.kept o)

def release (b : Book κ β) (k : κ) : Book κ β :=
  { b with pending := b.pending.filter fun e => decide (e.1 ≠ k) }

def drop [DecidableEq β] (b : Book κ β) (o : β) (k : κ) : Book κ β :=
  { b with kept := Function.update b.kept o ((b.kept o).filter fun k' => decide (k' ≠ k)) }

/-- The keeper that entered the identifier last. -/
def creator (b : Book κ β) (k : κ) : Option β :=
  (b.created.find? fun e => decide (e.1 = k)).map Prod.snd

theorem mem_drop [DecidableEq β] {b : Book κ β} {o o' : β} {k k' : κ} :
    k' ∈ (b.drop o k).kept o' ↔ k' ∈ b.kept o' ∧ ¬(o' = o ∧ k' = k) := by
  by_cases ho : o' = o
  · subst ho
    simp [drop]
  · simp [drop, ho]

theorem mem_occupied {keepers : List β} {b : Book κ β} {k : κ} :
    k ∈ b.occupied keepers ↔ k ∈ b.names ∨ ∃ o ∈ keepers, k ∈ b.kept o := by
  simp [occupied]

theorem occupied_le {keepers : List β} {b b' : Book κ β}
    (h : ∀ k, k ∈ b'.occupied keepers → k ∈ b.occupied keepers) :
    (b'.occupied keepers).length ≤ (b.occupied keepers).length :=
  (subperm_of_subset (nodup_dedup _) fun k hk => h k hk).length_le

/-- **No identifier has two keepers, and their number is bounded.** -/
structure Sound (keepers : List β) (capacity : Nat) (b : Book κ β) : Prop where
  exclusive : ∀ k o o', k ∈ b.kept o → k ∈ b.kept o' → o = o'
  agrees : ∀ k o o', (k, o) ∈ b.pending → k ∈ b.kept o' → o = o'
  single : ∀ k o o', (k, o) ∈ b.pending → (k, o') ∈ b.pending → o = o'
  listed : ∀ k o, k ∈ b.kept o → o ∈ keepers
  author : ∀ k o, k ∈ b.kept o → b.creator k = some o
  bounded : (b.occupied keepers).length ≤ capacity

namespace Sound

variable {keepers : List β} {capacity : Nat} {b : Book κ β}

theorem empty : Sound keepers capacity (Book.empty : Book κ β) where
  exclusive := nofun
  agrees := nofun
  single := nofun
  listed := nofun
  author := nofun
  bounded := by
    have hnone : keepers.flatMap (Book.empty : Book κ β).kept = [] :=
      flatMap_eq_nil_iff.mpr fun _ _ => rfl
    rw [occupied, hnone]
    exact Nat.zero_le _

theorem reserve (h : Sound keepers capacity b) {k : κ} (o : β) (hnames : k ∉ b.names)
    (hkept : ∀ o ∈ keepers, k ∉ b.kept o) (hroom : (b.occupied keepers).length < capacity) :
    Sound keepers capacity (b.reserve k o) := by
  have hfree : ∀ o', (k, o') ∉ b.pending := fun o' hmem => hnames (mem_names.mpr ⟨o', hmem⟩)
  refine ⟨h.exclusive, ?_, ?_, h.listed, h.author, ?_⟩
  · intro k' o' owner hmem hkept'
    rcases mem_cons.mp hmem with heq | hmem
    · obtain ⟨rfl, rfl⟩ := Prod.mk.inj heq
      exact absurd hkept' (hkept owner (h.listed _ _ hkept'))
    · exact h.agrees k' o' owner hmem hkept'
  · intro k' o₁ o₂ h₁ h₂
    rcases mem_cons.mp h₁ with heq₁ | hold₁
    · obtain ⟨rfl, rfl⟩ := Prod.mk.inj heq₁
      rcases mem_cons.mp h₂ with heq₂ | hold₂
      · exact (Prod.mk.inj heq₂).2.symm
      · exact absurd hold₂ (hfree o₂)
    · rcases mem_cons.mp h₂ with heq₂ | hold₂
      · obtain ⟨rfl, rfl⟩ := Prod.mk.inj heq₂
        exact absurd hold₁ (hfree o₁)
      · exact h.single k' o₁ o₂ hold₁ hold₂
  · have hnot : k ∉ b.occupied keepers := by
      rw [mem_occupied]
      rintro (hmem | ⟨o', ho', hmem⟩)
      · exact hnames hmem
      · exact hkept o' ho' hmem
    have hcons : (b.reserve k o).occupied keepers = k :: b.occupied keepers := by
      exact dedup_cons_of_notMem (mem_dedup.not.mp hnot)
    rw [hcons, length_cons]
    exact hroom

theorem enter [DecidableEq β] (h : Sound keepers capacity b) {k : κ} {o : β}
    (hpending : (k, o) ∈ b.pending) (hkeeper : o ∈ keepers) : Sound keepers capacity (b.enter o k) := by
  refine ⟨?_, ?_, h.single, ?_, ?_, Nat.le_trans (occupied_le ?_) h.bounded⟩
  · intro k' o₁ o₂ h₁ h₂
    rcases mem_enter.mp h₁ with hold₁ | ⟨rfl, rfl⟩
    · rcases mem_enter.mp h₂ with hold₂ | ⟨rfl, rfl⟩
      · exact h.exclusive k' o₁ o₂ hold₁ hold₂
      · exact (h.agrees _ _ _ hpending hold₁).symm
    · rcases mem_enter.mp h₂ with hold₂ | ⟨rfl, -⟩
      · exact h.agrees _ _ _ hpending hold₂
      · rfl
  · intro k' o₁ o₂ h₁ h₂
    rcases mem_enter.mp h₂ with h₂ | ⟨rfl, rfl⟩
    · exact h.agrees k' o₁ o₂ h₁ h₂
    · exact h.single _ _ _ h₁ hpending
  · intro k' o' hmem
    rcases mem_enter.mp hmem with hmem | ⟨rfl, -⟩
    · exact h.listed k' o' hmem
    · exact hkeeper
  · intro k' o' hmem
    by_cases hk : k = k'
    · subst hk
      have howner : o = o' := by
        rcases mem_enter.mp hmem with hmem | ⟨rfl, -⟩
        · exact h.agrees _ _ _ hpending hmem
        · rfl
      simp [creator, Book.enter, howner]
    · rcases mem_enter.mp hmem with hmem | ⟨-, rfl⟩
      · have hold := h.author k' o' hmem
        simpa [creator, Book.enter, hk] using hold
      · exact absurd rfl hk
  · intro k' hk'
    rw [mem_occupied] at hk' ⊢
    rcases hk' with hmem | ⟨o', ho', hmem⟩
    · exact .inl hmem
    · rcases mem_enter.mp hmem with hmem | ⟨-, rfl⟩
      · exact .inr ⟨o', ho', hmem⟩
      · exact .inl (mem_names.mpr ⟨o, hpending⟩)

theorem drop [DecidableEq β] (h : Sound keepers capacity b) (o : β) (k : κ) :
    Sound keepers capacity (b.drop o k) := by
  refine ⟨?_, ?_, h.single, ?_, ?_, Nat.le_trans (occupied_le ?_) h.bounded⟩
  · intro k' o₁ o₂ h₁ h₂
    exact h.exclusive k' o₁ o₂ (mem_drop.mp h₁).1 (mem_drop.mp h₂).1
  · intro k' o₁ o₂ h₁ h₂
    exact h.agrees k' o₁ o₂ h₁ (mem_drop.mp h₂).1
  · intro k' o' hmem
    exact h.listed k' o' (mem_drop.mp hmem).1
  · intro k' o' hmem
    exact h.author k' o' (mem_drop.mp hmem).1
  · intro k' hk'
    rw [mem_occupied] at hk' ⊢
    rcases hk' with hmem | ⟨o', ho', hmem⟩
    · exact .inl hmem
    · exact .inr ⟨o', ho', (mem_drop.mp hmem).1⟩

theorem release (h : Sound keepers capacity b) (k : κ) : Sound keepers capacity (b.release k) := by
  have hold : ∀ {e}, e ∈ (b.release k).pending → e ∈ b.pending := fun he =>
    (mem_filter.mp he).1
  refine ⟨h.exclusive, ?_, ?_, h.listed, h.author, Nat.le_trans (occupied_le ?_) h.bounded⟩
  · intro k' o₁ o₂ h₁ h₂
    exact h.agrees k' o₁ o₂ (hold h₁) h₂
  · intro k' o₁ o₂ h₁ h₂
    exact h.single k' o₁ o₂ (hold h₁) (hold h₂)
  · intro k' hk'
    rw [mem_occupied] at hk' ⊢
    rcases hk' with hmem | hkept
    · obtain ⟨o, ho⟩ := mem_names.mp hmem
      exact .inl (mem_names.mpr ⟨o, hold ho⟩)
    · exact .inr hkept

/-- **A kept identifier has one owner**, and others have none. -/
theorem owners_of_mem (h : Sound keepers capacity b) (hkeepers : keepers.Nodup) {k : κ} {o : β}
    (hkept : k ∈ b.kept o) : b.owners keepers k = [o] := by
  have hmem : o ∈ b.owners keepers k :=
    mem_filter.mpr ⟨h.listed k o hkept, decide_eq_true hkept⟩
  have hall : ∀ o' ∈ b.owners keepers k, o' = o := by
    intro o' ho'
    have hkept' := of_decide_eq_true (mem_filter.mp ho').2
    exact h.exclusive k o' o hkept' hkept
  have hnodup : (b.owners keepers k).Nodup := hkeepers.filter _
  cases howners : b.owners keepers k with
  | nil =>
    rw [howners] at hmem
    cases hmem
  | cons first rest =>
    rw [howners] at hall hnodup
    obtain rfl := hall first mem_cons_self
    have hrest : rest = [] := by
      refine eq_nil_iff_forall_not_mem.mpr fun o' ho' => ?_
      rw [hall o' (mem_cons_of_mem _ ho')] at ho'
      exact (nodup_cons.mp hnodup).1 ho'
    rw [hrest]

theorem owners_cases (h : Sound keepers capacity b) (hkeepers : keepers.Nodup) (k : κ) :
    b.owners keepers k = [] ∨ ∃ o, k ∈ b.kept o ∧ b.owners keepers k = [o] := by
  cases howners : b.owners keepers k with
  | nil => exact .inl rfl
  | cons first rest =>
    have hmem : first ∈ b.owners keepers k := howners ▸ mem_cons_self
    have hkept := of_decide_eq_true (mem_filter.mp hmem).2
    rw [← howners]
    exact .inr ⟨first, hkept, h.owners_of_mem hkeepers hkept⟩

end Sound

end Book

end FoldGPT.Lib
