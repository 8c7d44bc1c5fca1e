import Mathlib.Data.List.Basic

/-!
# Encodings that tell where they end

In a `PrefixFree` encoding, a value and what follows it are determined by the bytes, and so are sequences of values: those
of a given length with anything behind them (`list`), and, where no value is encoded as nothing, all of them
(`prefix_of_flatten`).
-/

namespace Embed
variable {α β : Type*} {P : α → Prop} {enc : α → List β}

/-- Of the values that `P` selects, two that are encoded alike, whatever follows them, are one. -/
def PrefixFree (P : α → Prop) (enc : α → List β) : Prop :=
  ∀ ⦃a b r r'⦄, P a → P b → enc a ++ r = enc b ++ r' → a = b ∧ r = r'

namespace PrefixFree

/-- The first `k` items tell the length. -/
theorem of_header {k : ℕ} (hk : ∀ a, P a → k ≤ (enc a).length)
    (hlen : ∀ a b, P a → P b → (enc a).take k = (enc b).take k → (enc a).length = (enc b).length)
    (hinj : ∀ a b, P a → P b → enc a = enc b → a = b) : PrefixFree P enc := by
  intro a b r r' ha hb h
  have htake : (enc a).take k = (enc b).take k := by
    have h := congrArg (List.take k) h
    rwa [List.take_append_of_le_length (hk a ha), List.take_append_of_le_length (hk b hb)] at h
  obtain ⟨henc, hr⟩ := List.append_inj h (hlen a b ha hb htake)
  exact ⟨hinj a b ha hb henc, hr⟩

theorem of_length {n : ℕ} (hlen : ∀ a, P a → (enc a).length = n) (hinj : ∀ a b, P a → P b → enc a = enc b → a = b) :
    PrefixFree P enc :=
  of_header (fun _ _ => Nat.zero_le _) (fun a b ha hb _ => (hlen a ha).trans (hlen b hb).symm) hinj

theorem list (h : PrefixFree P enc) {l l' : List α} {r r' : List β} (hl : ∀ a ∈ l, P a) (hl' : ∀ a ∈ l', P a)
    (hlen : l.length = l'.length) (heq : (l.map enc).flatten ++ r = (l'.map enc).flatten ++ r') : l = l' ∧ r = r' := by
  induction l generalizing l' with
  | nil =>
    obtain rfl := List.length_eq_zero_iff.1 hlen.symm
    exact ⟨rfl, heq⟩
  | cons a l ih =>
    obtain ⟨b, l', rfl⟩ := List.exists_cons_of_length_eq_add_one hlen.symm
    rw [List.map_cons, List.map_cons, List.flatten_cons, List.flatten_cons, List.append_assoc, List.append_assoc] at heq
    obtain ⟨rfl, hrest⟩ := h (hl a (List.mem_cons_self ..)) (hl' b (List.mem_cons_self ..)) heq
    obtain ⟨rfl, hr⟩ := ih (fun x hx => hl x (List.mem_cons_of_mem _ hx)) (fun x hx => hl' x (List.mem_cons_of_mem _ hx))
      (Nat.succ.inj hlen) hrest
    exact ⟨rfl, hr⟩

theorem prefix_of_flatten (h : PrefixFree P enc) (hne : ∀ a, P a → enc a ≠ []) {l l' : List α} (hl : ∀ a ∈ l, P a)
    (hl' : ∀ a ∈ l', P a) (hpre : (l.map enc).flatten <+: (l'.map enc).flatten) : l <+: l' := by
  obtain ⟨r, heq⟩ := hpre
  induction l generalizing l' with
  | nil => exact List.nil_prefix
  | cons a l ih =>
    cases l' with
    | nil =>
      rw [List.map_cons, List.flatten_cons] at heq
      have hnil := List.append_eq_nil_iff.1 (List.append_eq_nil_iff.1 heq).1
      exact absurd hnil.1 (hne a (hl a (List.mem_cons_self ..)))
    | cons b l' =>
      rw [List.map_cons, List.map_cons, List.flatten_cons, List.flatten_cons, List.append_assoc] at heq
      obtain ⟨rfl, hrest⟩ := h (hl a (List.mem_cons_self ..)) (hl' b (List.mem_cons_self ..)) heq
      have htail := ih (fun x hx => hl x (List.mem_cons_of_mem _ hx)) (fun x hx => hl' x (List.mem_cons_of_mem _ hx)) hrest
      exact List.cons_prefix_cons.2 ⟨rfl, htail⟩

end PrefixFree

end Embed
