import WireSchema.Result
import Mathlib.Data.List.Forall2

/-!
# Computations one after the other

A computation is made for every element of a list, and the first failure ends the whole. Such a
sequence succeeds exactly when every one of its computations does, and then it gives their results
in order.
-/

namespace WireSchema.Result

variable {ε α β : Type}

theorem map_map {γ : Type} (f : α → β) (g : β → γ) (x : Except ε α) :
    (x.map f).map g = x.map fun a => g (f a) := by
  cases x <;> rfl

/-- **Every element has its result, in order.** -/
theorem mapM_eq_ok {f : α → Except ε β} {xs : List α} {ys : List β} :
    xs.mapM f = .ok ys ↔ List.Forall₂ (fun x y => f x = .ok y) xs ys := by
  induction xs generalizing ys with
  | nil =>
    rw [List.mapM_nil, List.forall₂_nil_left_iff]
    exact ⟨fun h => (Except.ok.inj h).symm, fun h => by rw [h]; rfl⟩
  | cons x xs ih =>
    rw [List.mapM_cons, bind_eq_ok, List.forall₂_cons_left_iff]
    constructor
    · rintro ⟨y, hy, h⟩
      obtain ⟨zs, hzs, h⟩ := bind_eq_ok.mp h
      exact ⟨y, zs, hy, ih.mp hzs, (Except.ok.inj h).symm⟩
    · rintro ⟨y, zs, hy, hzs, rfl⟩
      exact ⟨y, hy, bind_eq_ok.mpr ⟨zs, ih.mpr hzs, rfl⟩⟩

theorem forM_eq_ok {f : α → Except ε Unit} {xs : List α} :
    xs.forM f = .ok () ↔ ∀ x ∈ xs, f x = .ok () := by
  induction xs with
  | nil => exact ⟨fun _ x hx => absurd hx (by simp), fun _ => rfl⟩
  | cons x xs ih =>
    rw [show (x :: xs).forM f = f x >>= fun _ => xs.forM f from rfl, bind_eq_ok,
      List.forall_mem_cons]
    constructor
    · rintro ⟨_, hx, h⟩
      exact ⟨hx, ih.mp h⟩
    · rintro ⟨hx, h⟩
      exact ⟨(), hx, ih.mpr h⟩

theorem zipIdx_eq_map_attach (xs : List α) :
    xs.zipIdx = xs.attach.zipIdx.map (Prod.map Subtype.val id) :=
  calc xs.zipIdx = (xs.attach.map Subtype.val).zipIdx := by rw [List.attach_map_subtype_val]
    _ = xs.attach.zipIdx.map (Prod.map Subtype.val id) := List.zipIdx_map ..

/-- That elements are known to be members makes no difference to a sequence. -/
theorem mapM_attach_zipIdx {f : α → Nat → Except ε β} (xs : List α) :
    (xs.attach.zipIdx.mapM fun p => f p.1.1 p.2) = xs.zipIdx.mapM fun p => f p.1 p.2 := by
  rw [zipIdx_eq_map_attach xs, List.mapM_map]
  rfl

theorem forM_attach_zipIdx_eq_ok {f : α → Nat → Except ε Unit} {xs : List α} :
    (xs.attach.zipIdx.forM fun p => f p.1.1 p.2) = .ok () ↔
      ∀ p ∈ xs.zipIdx, f p.1 p.2 = .ok () := by
  rw [zipIdx_eq_map_attach xs, List.forall_mem_map, forM_eq_ok]
  rfl

/-- The same for elements with their positions. -/
theorem mapM_zipIdx_eq_ok {f : α × Nat → Except ε β} {xs : List α} {ys : List β} {k : Nat}
    (h : (xs.zipIdx k).mapM f = .ok ys) :
    xs.length = ys.length ∧ ∀ p ∈ xs.zip ys, ∃ i, f (p.1, i) = .ok p.2 := by
  have hall := mapM_eq_ok.mp h
  have hex : List.Forall₂ (fun x y => ∃ i, f (x, i) = .ok y) ((xs.zipIdx k).map Prod.fst) ys :=
    List.forall₂_map_left_iff.mpr (hall.imp fun p _ hp => ⟨p.2, hp⟩)
  rw [List.zipIdx_map_fst] at hex
  obtain ⟨hlen, hzip⟩ := List.forall₂_iff_zip.mp hex
  exact ⟨hlen, fun _ hp => hzip hp⟩

theorem mapM_zipIdx_of_ok {f : α × Nat → Except ε β} {xs : List α} {ys : List β} {k : Nat}
    (hlen : xs.length = ys.length) (h : ∀ p ∈ xs.zip ys, ∀ i, f (p.1, i) = .ok p.2) :
    (xs.zipIdx k).mapM f = .ok ys := by
  have hall : List.Forall₂ (fun x y => ∀ i, f (x, i) = .ok y) ((xs.zipIdx k).map Prod.fst) ys := by
    rw [List.zipIdx_map_fst]
    exact List.forall₂_iff_zip.mpr ⟨hlen, fun {x y} hp => h (x, y) hp⟩
  exact mapM_eq_ok.mpr ((List.forall₂_map_left_iff.mp hall).imp fun p _ hp => hp p.2)

/-- A result is the result of some element. -/
theorem exists_of_mem_right {R : α → β → Prop} {xs : List α} {ys : List β}
    (h : List.Forall₂ R xs ys) {y : β} (hy : y ∈ ys) : ∃ x ∈ xs, R x y := by
  induction h with
  | nil => exact absurd hy (by simp)
  | cons hr _ ih =>
    rcases List.mem_cons.mp hy with rfl | hy
    · exact ⟨_, List.mem_cons_self, hr⟩
    · obtain ⟨x, hx, hr⟩ := ih hy
      exact ⟨x, List.mem_cons_of_mem _ hx, hr⟩

theorem exists_of_getElem?_right {R : α → β → Prop} {xs : List α} {ys : List β}
    (h : List.Forall₂ R xs ys) {i : Nat} {y : β} (hy : ys[i]? = some y) :
    ∃ x, xs[i]? = some x ∧ R x y := by
  obtain ⟨hlt, rfl⟩ := List.getElem?_eq_some_iff.mp hy
  have hlt' : i < xs.length := h.length_eq ▸ hlt
  exact ⟨xs[i], List.getElem?_eq_getElem hlt', h.get hlt' hlt⟩

/-! ## One state after the other -/

theorem foldlM_ok {f : β → α → Except ε β} {xs : List α}
    (h : ∀ x ∈ xs, ∀ b, ∃ b', f b x = .ok b') (b : β) : ∃ b', xs.foldlM f b = .ok b' := by
  induction xs generalizing b with
  | nil => exact ⟨b, rfl⟩
  | cons x xs ih =>
    obtain ⟨b₁, h₁⟩ := h x List.mem_cons_self b
    obtain ⟨b₂, h₂⟩ := ih (fun y hy => h y (List.mem_cons_of_mem _ hy)) b₁
    exact ⟨b₂, by rw [List.foldlM_cons, h₁]; exact h₂⟩

/-- Of two loops that keep different records, one is a view of the other. -/
theorem foldlM_map {γ : Type} {f : β → α → Except ε β} {g : γ → α → Except ε γ}
    (view : β → γ) {xs : List α} (h : ∀ x ∈ xs, ∀ b, g (view b) x = (f b x).map view) (b : β) :
    xs.foldlM g (view b) = (xs.foldlM f b).map view := by
  induction xs generalizing b with
  | nil => rfl
  | cons x xs ih =>
    rw [List.foldlM_cons, List.foldlM_cons, h x List.mem_cons_self]
    cases f b x with
    | error e => rfl
    | ok b₁ => exact ih (fun y hy => h y (List.mem_cons_of_mem _ hy)) b₁

/-! ## Two lists side by side -/

theorem exists_mem_zip {xs : List α} {ys : List β} (hlen : xs.length = ys.length) {y : β}
    (hy : y ∈ ys) : ∃ x, (x, y) ∈ xs.zip ys := by
  rw [← List.map_snd_zip (Nat.le_of_eq hlen.symm)] at hy
  obtain ⟨⟨x, _⟩, hp, rfl⟩ := List.mem_map.mp hy
  exact ⟨x, hp⟩

theorem exists_mem_zip_left {xs : List α} {ys : List β} (hlen : xs.length = ys.length) {x : α}
    (hx : x ∈ xs) : ∃ y, (x, y) ∈ xs.zip ys := by
  rw [← List.map_fst_zip (Nat.le_of_eq hlen)] at hx
  obtain ⟨⟨_, y⟩, hp, rfl⟩ := List.mem_map.mp hx
  exact ⟨y, hp⟩

theorem exists_forall₂ {R : α → β → Prop} {xs : List α} (h : ∀ x ∈ xs, ∃ y, R x y) :
    ∃ ys, List.Forall₂ R xs ys := by
  induction xs with
  | nil => exact ⟨[], .nil⟩
  | cons x xs ih =>
    obtain ⟨y, hy⟩ := h x List.mem_cons_self
    obtain ⟨ys, hys⟩ := ih fun z hz => h z (List.mem_cons_of_mem _ hz)
    exact ⟨y :: ys, .cons hy hys⟩

theorem map_eq_map_of_zip {γ : Type} {f : α → γ} {g : β → γ} {xs : List α} {ys : List β}
    (hlen : xs.length = ys.length) (h : ∀ p ∈ xs.zip ys, f p.1 = g p.2) : xs.map f = ys.map g := by
  have hall : List.Forall₂ (fun x y => f x = g y) xs ys :=
    List.forall₂_iff_zip.mpr ⟨hlen, fun {x y} hp => h (x, y) hp⟩
  rw [← List.forall₂_eq_eq_eq]
  exact List.forall₂_map_left_iff.mpr (List.forall₂_map_right_iff.mpr hall)

theorem foldl_zip_eq {γ : Type} {step : γ → α × β → γ} {step' : γ → α → γ} {xs : List α}
    {ys : List β} (hlen : xs.length = ys.length)
    (h : ∀ p ∈ xs.zip ys, ∀ c, step c p = step' c p.1) (c : γ) :
    (xs.zip ys).foldl step c = xs.foldl step' c := by
  rw [← List.map_fst_zip (Nat.le_of_eq hlen), List.foldl_map, List.map_fst_zip (Nat.le_of_eq hlen)]
  exact List.foldl_ext _ _ _ fun c p hp => h p hp c

end WireSchema.Result
