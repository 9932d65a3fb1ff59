/-!
# Sequences of checks

Code that raises at its first failing check is a `do` block in `Except`. The
lemmas take a block that ended well apart: every check passed.
-/

namespace FoldGPT.Lib

open List

variable {ε α β : Type}

/-- Raise unless the condition holds. -/
def require (condition : Bool) (error : ε) : Except ε Unit :=
  if condition then .ok () else .error error

@[simp] theorem require_eq_ok {condition : Bool} {error : ε} {u : Unit} :
    require condition error = .ok u ↔ condition = true := by
  cases condition <;> simp [require]

variable {x : Except ε α} {f : α → Except ε β}

@[simp] theorem bind_eq_ok {b : β} : (x >>= f) = .ok b ↔ ∃ a, x = .ok a ∧ f a = .ok b := by
  cases x with
  | ok a => simp [bind, Except.bind]
  | error e => simp [bind, Except.bind]

@[simp] theorem pure_eq_ok {a b : α} : (pure a : Except ε α) = .ok b ↔ a = b := by
  simp [pure, Except.pure]

@[simp] theorem map_eq_ok {f : α → β} {b : β} : x.map f = .ok b ↔ ∃ a, x = .ok a ∧ f a = b := by
  cases x with
  | ok a => simp [Except.map]
  | error e => simp [Except.map]

@[simp] theorem ok_bind {a : α} : ((.ok a : Except ε α) >>= f) = f a := rfl

@[simp] theorem error_bind {e : ε} :
    ((.error e : Except ε α) >>= f) = .error e := rfl

theorem exists_unit {P : Unit → Prop} : (∃ u, P u) ↔ P () := ⟨fun ⟨_, h⟩ => h, fun h => ⟨(), h⟩⟩

/-- Checks made only when the condition holds. -/
def whenever (condition : Bool) (checks : Except ε Unit) : Except ε Unit :=
  if condition then checks else .ok ()

@[simp] theorem whenever_true (checks : Except ε Unit) : whenever true checks = checks := rfl

@[simp] theorem whenever_false (checks : Except ε Unit) : whenever false checks = .ok () := rfl

@[simp] theorem whenever_eq_ok {condition : Bool} {checks : Except ε Unit} {u : Unit} :
    whenever condition checks = .ok u ↔ (condition = true → checks = .ok u) := by
  cases condition <;> simp [whenever]

theorem exists_ok_of_isOk (h : x.isOk) : ∃ a, x = .ok a := by
  cases x with
  | ok a => exact ⟨a, rfl⟩
  | error e => cases h

/-! ### Checks over a list -/

variable {l : List α}

theorem mapM_eq_ok_of_forall {g : α → β}
    (h : ∀ x ∈ l, f x = .ok (g x)) : l.mapM f = .ok (l.map g) := by
  induction l with
  | nil => rfl
  | cons x l ih =>
    rw [mapM_cons, h x mem_cons_self, ih fun y hy => h y (mem_cons_of_mem x hy)]
    rfl

/-- The same for a check that also gets the index of the element. -/
theorem mapM_zipIdx_eq_ok {f : α × Nat → Except ε β} {g : β → α} {items : List β}
    (h : ∀ x ∈ items, ∀ i, f (g x, i) = .ok x) : (items.map g).zipIdx.mapM f = .ok items := by
  suffices ∀ start, ((items.map g).zipIdx start).mapM f = .ok items from this 0
  induction items with
  | nil => exact fun start => rfl
  | cons x items ih =>
    intro start
    rw [map_cons, zipIdx_cons, mapM_cons, h x mem_cons_self,
      ih (fun y hy => h y (mem_cons_of_mem x hy))]
    rfl

theorem mapM_eq_error_of_exists {e : ε} (hall : ∀ x ∈ l, f x = .error e ∨ ∃ y, f x = .ok y)
    (hex : ∃ x ∈ l, f x = .error e) : l.mapM f = .error e := by
  induction l with
  | nil =>
    obtain ⟨x, hx, -⟩ := hex
    cases hx
  | cons x l ih =>
    rw [mapM_cons]
    rcases hall x mem_cons_self with hx | ⟨y, hx⟩
    · rw [hx]
      rfl
    · obtain ⟨z, hz, hzerr⟩ := hex
      have hzl : z ∈ l := by
        rcases mem_cons.mp hz with rfl | hz
        · rw [hx] at hzerr
          cases hzerr
        · exact hz
      rw [hx, ih (fun w hw => hall w (mem_cons_of_mem x hw)) ⟨z, hzl, hzerr⟩]
      rfl

/-- One check for every element, in order: a `for` loop that only raises. -/
def checkAll (check : α → Except ε Unit) : List α → Except ε Unit
  | [] => .ok ()
  | x :: rest => do
    check x
    checkAll check rest

@[simp] theorem checkAll_eq_ok {check : α → Except ε Unit} {u : Unit} :
    checkAll check l = .ok u ↔ ∀ x ∈ l, check x = .ok () := by
  induction l with
  | nil => simp [checkAll]
  | cons x l ih =>
    rw [checkAll, bind_eq_ok, forall_mem_cons, ← ih]
    exact ⟨fun ⟨⟨⟩, hx, hl⟩ => ⟨hx, hl⟩, fun ⟨hx, hl⟩ => ⟨(), hx, hl⟩⟩

theorem checkAll_require (condition : α → Bool) (error : ε) (l : List α) :
    checkAll (fun x => require (condition x) error) l = require (l.all condition) error := by
  induction l with
  | nil => rfl
  | cons x l ih =>
    rw [checkAll, ih, all_cons]
    cases condition x <;> rfl

@[simp] theorem mapError_eq_ok {δ : Type} {f : ε → δ} {a : α} :
    x.mapError f = .ok a ↔ x = .ok a := by
  cases x <;> constructor <;> intro h <;> cases h <;> rfl

theorem mem_of_mapM_eq_ok {ys : List β}
    (h : l.mapM f = .ok ys) {y : β} (hy : y ∈ ys) : ∃ x ∈ l, f x = .ok y := by
  induction l generalizing ys with
  | nil =>
    have hys : ([] : List β) = ys := by simpa using h
    subst hys
    cases hy
  | cons x l ih =>
    rw [mapM_cons] at h
    simp only [bind_eq_ok, pure_eq_ok] at h
    obtain ⟨b, hb, bs, hbs, rfl⟩ := h
    rcases mem_cons.mp hy with rfl | hy
    · exact ⟨x, mem_cons_self, hb⟩
    · obtain ⟨z, hz, hzy⟩ := ih hbs hy
      exact ⟨z, mem_cons_of_mem x hz, hzy⟩

end FoldGPT.Lib
