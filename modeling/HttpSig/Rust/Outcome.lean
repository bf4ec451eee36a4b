import Mathlib.Data.List.Forall2

/-! The outcome of a call: a value, an error handed to the caller, or a panic.

A panic is neither value nor error: `?`, `.ok()` and `filter_map` all pass it on, so a function that
returns `Result` still has three outcomes. -/

namespace Rust

inductive Outcome (ε α : Type) where
  | ok (a : α)
  | err (e : ε)
  | panic
  deriving DecidableEq, Repr

namespace Outcome
variable {ε ε' α β γ : Type}

protected def bind : Outcome ε α → (α → Outcome ε β) → Outcome ε β
  | ok a, f => f a
  | err e, _ => err e
  | panic, _ => panic

instance : Monad (Outcome ε) where
  pure := ok
  bind := Outcome.bind

@[simp] theorem pure_eq (a : α) : (pure a : Outcome ε α) = ok a := rfl
@[simp] theorem ok_bind (a : α) (f : α → Outcome ε β) : (ok a >>= f) = f a := rfl
@[simp] theorem err_bind (e : ε) (f : α → Outcome ε β) : (err e >>= f) = err e := rfl
@[simp] theorem panic_bind (f : α → Outcome ε β) : ((panic : Outcome ε α) >>= f) = panic := rfl

instance : LawfulMonad (Outcome ε) := LawfulMonad.mk' (Outcome ε)
  (fun x => by cases x <;> rfl) (fun _ _ => rfl) (fun x _ _ => by cases x <;> rfl)

@[simp] theorem map_ok (f : α → β) (a : α) : f <$> (ok a : Outcome ε α) = ok (f a) := rfl
@[simp] theorem map_err (f : α → β) (e : ε) : f <$> (err e : Outcome ε α) = err e := rfl
@[simp] theorem map_panic (f : α → β) : f <$> (panic : Outcome ε α) = panic := rfl

/-- `Result::map_err`. -/
def mapErr (f : ε → ε') : Outcome ε α → Outcome ε' α
  | ok a => ok a
  | err e => err (f e)
  | panic => panic

/-- `Result::ok`: an error becomes `None`, a panic stays one. -/
def toOption : Outcome ε α → Outcome ε' (Option α)
  | ok a => ok (some a)
  | err _ => ok none
  | panic => panic

/-- `Option::ok_or`. -/
def okOr (e : ε) : Option α → Outcome ε α
  | some a => ok a
  | none => err e

/-- The value of a call that gave one. -/
def ok? : Outcome ε α → Option α
  | ok a => some a
  | _ => none

def isOk : Outcome ε α → Bool
  | ok _ => true
  | _ => false

def isErr : Outcome ε α → Bool
  | err _ => true
  | _ => false

/-- `join_all` and then `collect`: every call is made before the first error is looked at. -/
def joinAll (l : List (Outcome ε α)) : Outcome ε (List α) :=
  if l.any fun x => match x with | panic => true | _ => false then panic else l.mapM id

@[simp] theorem mapErr_ok (f : ε → ε') (a : α) : (ok a).mapErr f = ok a := rfl
@[simp] theorem mapErr_err (f : ε → ε') (e : ε) : (err e : Outcome ε α).mapErr f = err (f e) := rfl
@[simp] theorem mapErr_panic (f : ε → ε') : (panic : Outcome ε α).mapErr f = panic := rfl
@[simp] theorem toOption_ok (a : α) : (ok a : Outcome ε α).toOption = (ok (some a) : Outcome ε' _) := rfl
@[simp] theorem toOption_err (e : ε) : (err e : Outcome ε α).toOption = (ok none : Outcome ε' _) := rfl
@[simp] theorem toOption_panic : (panic : Outcome ε α).toOption = (panic : Outcome ε' _) := rfl
@[simp] theorem okOr_some (e : ε) (a : α) : okOr e (some a) = ok a := rfl
@[simp] theorem okOr_none (e : ε) : (okOr e none : Outcome ε α) = err e := rfl

theorem ok_ne_panic (a : α) : (ok a : Outcome ε α) ≠ panic := nofun
theorem err_ne_panic (e : ε) : (err e : Outcome ε α) ≠ panic := nofun

theorem ok_ne_err {a : α} {e : ε} : ok a ≠ err e := nofun

/-- A check without an error of its own. -/
theorem dite_eq_panic {p : Prop} [Decidable p] {f : p → Outcome ε α} (hf : ∀ h, f h ≠ panic) :
    (if h : p then f h else panic) = panic ↔ ¬ p := by
  by_cases h : p
  · rw [dif_pos h]
    exact iff_of_false (hf h) (not_not.mpr h)
  · rw [dif_neg h]
    exact iff_of_true rfl h

/-! ### How outcomes compose -/

theorem bind_eq_ok {x : Outcome ε α} {f : α → Outcome ε β} {b : β} :
    (x >>= f) = ok b ↔ ∃ a, x = ok a ∧ f a = ok b := by
  cases x <;> simp

theorem bind_eq_panic {x : Outcome ε α} {f : α → Outcome ε β} :
    (x >>= f) = panic ↔ x = panic ∨ ∃ a, x = ok a ∧ f a = panic := by
  cases x <;> simp

theorem map_eq_ok {x : Outcome ε α} {f : α → β} {b : β} : f <$> x = ok b ↔ ∃ a, x = ok a ∧ f a = b := by
  cases x <;> simp

theorem map_eq_panic {x : Outcome ε α} {f : α → β} : f <$> x = panic ↔ x = panic := by
  cases x <;> simp

theorem mapErr_eq_ok {x : Outcome ε α} {f : ε → ε'} {a : α} : x.mapErr f = ok a ↔ x = ok a := by
  cases x <;> simp

theorem mapErr_eq_panic {x : Outcome ε α} {f : ε → ε'} : x.mapErr f = panic ↔ x = panic := by
  cases x <;> simp

theorem okOr_eq_ok {e : ε} {x : Option α} {a : α} : okOr e x = ok a ↔ x = some a := by
  cases x <;> simp

theorem okOr_ne_panic {e : ε} {x : Option α} : okOr e x ≠ panic := by
  cases x <;> simp

theorem ok?_eq_some {x : Outcome ε α} {a : α} : x.ok? = some a ↔ x = ok a := by
  cases x <;> simp [ok?]

theorem isOk_iff {x : Outcome ε α} : x.isOk = true ↔ ∃ a, x = ok a := by
  cases x <;> simp [isOk]

/-! ### `collect::<Result<Vec<_>, _>>` -/

theorem mapM_eq_ok {f : α → Outcome ε β} :
    ∀ {l : List α} {bs : List β}, l.mapM f = ok bs ↔ List.Forall₂ (fun a b => f a = ok b) l bs
  | [], bs => by simp [eq_comm]
  | a :: l, bs => by
    rw [List.mapM_cons, bind_eq_ok]
    constructor
    · rintro ⟨b, hb, h⟩
      obtain ⟨bs', hbs, h⟩ := bind_eq_ok.mp h
      cases h
      exact .cons hb (mapM_eq_ok.mp hbs)
    · rintro (_ | ⟨hb, hbs⟩)
      exact ⟨_, hb, by rw [mapM_eq_ok.mpr hbs]; rfl⟩

theorem exists_of_mem_right {R : α → β → Prop} {l : List α} {bs : List β} (h : List.Forall₂ R l bs) {b : β} (hb : b ∈ bs) :
    ∃ a ∈ l, R a b := by
  obtain ⟨i, hi, rfl⟩ := List.getElem_of_mem hb
  have hi' : i < l.length := by rw [h.length_eq]; exact hi
  exact ⟨l[i], List.getElem_mem hi', (List.forall₂_iff_get.mp h).2 i hi' hi⟩

/-- Calls that all succeed are joined into their results. -/
theorem joinAll_eq_ok {l : List (Outcome ε α)} {as : List α} :
    joinAll l = ok as ↔ List.Forall₂ (fun x a => x = ok a) l as := by
  unfold joinAll
  split
  · rename_i hany
    obtain ⟨x, hx, hp⟩ := List.any_eq_true.mp hany
    simp only [reduceCtorEq, false_iff]
    intro h
    obtain ⟨a, -, rfl⟩ := exists_of_mem_right h.flip hx
    cases hp
  · exact mapM_eq_ok

theorem mapM_eq_ok_of_forall {f : α → Outcome ε β} {g : α → β} {l : List α} (h : ∀ a ∈ l, f a = ok (g a)) :
    l.mapM f = ok (l.map g) := by
  rw [mapM_eq_ok, List.forall₂_map_right_iff, List.forall₂_same]
  exact h

theorem exists_mapM_eq_ok {f : α → Outcome ε β} {l : List α} (h : ∀ a ∈ l, ∃ b, f a = ok b) : ∃ bs, l.mapM f = ok bs := by
  induction l with
  | nil => exact ⟨[], rfl⟩
  | cons a l ih =>
    obtain ⟨⟨b, hb⟩, hl⟩ := List.forall_mem_cons.mp h
    obtain ⟨bs, hbs⟩ := ih hl
    exact ⟨b :: bs, mapM_eq_ok.mpr (.cons hb (mapM_eq_ok.mp hbs))⟩

/-- Collecting panics exactly when the first element that is not `ok` panics. -/
theorem mapM_eq_panic {f : α → Outcome ε β} : ∀ {l : List α},
    l.mapM f = panic ↔ ∃ l₁ a l₂, l = l₁ ++ a :: l₂ ∧ (∀ x ∈ l₁, ∃ b, f x = ok b) ∧ f a = panic
  | [] => by simp
  | a :: l => by
    rw [List.mapM_cons, bind_eq_panic]
    constructor
    · rintro (h | ⟨b, hb, h⟩)
      · exact ⟨[], a, l, rfl, by simp, h⟩
      · rcases bind_eq_panic.mp h with h | ⟨bs, -, h⟩
        · obtain ⟨l₁, a', l₂, rfl, h₁, ha⟩ := mapM_eq_panic.mp h
          refine ⟨a :: l₁, a', l₂, rfl, ?_, ha⟩
          rintro x (_ | ⟨_, hx⟩)
          · exact ⟨b, hb⟩
          · exact h₁ x hx
        · cases h
    · rintro ⟨_ | ⟨a', l₁⟩, a'', l₂, h, h₁, ha⟩
      · cases h
        exact Or.inl ha
      · cases h
        obtain ⟨b, hb⟩ := h₁ a (List.mem_cons_self ..)
        refine Or.inr ⟨b, hb, bind_eq_panic.mpr (Or.inl ?_)⟩
        exact mapM_eq_panic.mpr ⟨l₁, a'', l₂, rfl, fun x hx => h₁ x (List.mem_cons_of_mem _ hx), ha⟩

theorem mapM_congr {f g : α → Outcome ε β} {l : List α} (h : ∀ a ∈ l, f a = g a) : l.mapM f = l.mapM g := by
  induction l with
  | nil => rfl
  | cons a l ih =>
    rw [List.mapM_cons, List.mapM_cons, h a (List.mem_cons_self ..),
      ih fun x hx => h x (List.mem_cons_of_mem _ hx)]

/-! ### The values alone -/

@[simp] theorem ok?_ok (a : α) : (ok a : Outcome ε α).ok? = some a := rfl
@[simp] theorem ok?_err (e : ε) : (err e : Outcome ε α).ok? = none := rfl
@[simp] theorem ok?_okOr (e : ε) (x : Option α) : (okOr e x).ok? = x := by cases x <;> rfl

theorem ok?_bind (x : Outcome ε α) (f : α → Outcome ε β) : (x >>= f).ok? = x.ok?.bind fun a => (f a).ok? := by
  cases x <;> rfl

theorem ok?_mapM (f : α → Outcome ε β) (l : List α) : (l.mapM f).ok? = l.mapM fun a => (f a).ok? := by
  induction l with
  | nil => rfl
  | cons a l ih =>
    rw [List.mapM_cons, List.mapM_cons, ← ih]
    cases f a with
    | ok b => cases l.mapM f <;> rfl
    | err e => rfl
    | panic => rfl

/-! ### What cannot panic -/

theorem bind_ne_panic {x : Outcome ε α} {f : α → Outcome ε β} (hx : x ≠ panic) (hf : ∀ a, x = ok a → f a ≠ panic) :
    (x >>= f) ≠ panic := by
  intro h
  rcases bind_eq_panic.mp h with h | ⟨a, ha, h⟩
  · exact hx h
  · exact hf a ha h

theorem mapM_ne_panic {f : α → Outcome ε β} {l : List α} (h : ∀ a ∈ l, f a ≠ panic) : l.mapM f ≠ panic := by
  intro hp
  obtain ⟨l₁, a, l₂, rfl, -, ha⟩ := mapM_eq_panic.mp hp
  exact h a (by simp) ha

theorem mapM_ne_err {f : α → Outcome ε β} {l : List α} (h : ∀ a ∈ l, ∀ e, f a ≠ err e) (e : ε) : l.mapM f ≠ err e := by
  induction l with
  | nil => nofun
  | cons a l ih =>
    rw [List.forall_mem_cons] at h
    rw [List.mapM_cons]
    intro hm
    cases ha : f a with
    | ok b =>
      rw [ha, ok_bind] at hm
      cases hl : l.mapM f with
      | err x =>
        rw [hl] at hm
        cases hm
        exact ih h.2 hl
      | _ =>
        rw [hl] at hm
        cases hm
    | err x => exact h.1 x ha
    | panic =>
      rw [ha] at hm
      cases hm

/-- Collecting what never errs panics as soon as one call does. -/
theorem mapM_eq_panic_of_ne_err {f : α → Outcome ε β} {l : List α} (h : ∀ a ∈ l, ∀ e, f a ≠ err e) :
    l.mapM f = panic ↔ ∃ a ∈ l, f a = panic := by
  induction l with
  | nil => simp
  | cons a l ih =>
    rw [List.forall_mem_cons] at h
    rw [List.mapM_cons, List.exists_mem_cons_iff, ← ih h.2, bind_eq_panic]
    cases ha : f a with
    | ok b => simp [bind_eq_panic]
    | err e => exact absurd ha (h.1 e)
    | panic => simp

theorem foldlM_ne_panic {f : β → α → Outcome ε β} (h : ∀ b a, f b a ≠ panic) :
    ∀ {l : List α} {b : β}, l.foldlM f b ≠ panic
  | [], b => ok_ne_panic b
  | a :: l, b => by
    rw [List.foldlM_cons]
    exact bind_ne_panic (h b a) fun b' _ => foldlM_ne_panic h

theorem forM_eq_ok {f : α → Outcome ε Unit} : ∀ {l : List α}, l.forM f = ok () ↔ ∀ a ∈ l, f a = ok ()
  | [] => by simp
  | a :: l => by
    show (f a >>= fun _ => l.forM f) = ok () ↔ _
    rw [bind_eq_ok, List.forall_mem_cons, ← forM_eq_ok]
    exact ⟨fun ⟨_, ha, hl⟩ => ⟨ha, hl⟩, fun ⟨ha, hl⟩ => ⟨(), ha, hl⟩⟩

theorem forM_ne_panic {f : α → Outcome ε Unit} (h : ∀ a, f a ≠ panic) : ∀ {l : List α}, l.forM f ≠ panic
  | [] => ok_ne_panic ()
  | a :: l => by
    show (f a >>= fun _ => l.forM f) ≠ panic
    exact bind_ne_panic (h a) fun _ _ => forM_ne_panic h

end Outcome
end Rust
