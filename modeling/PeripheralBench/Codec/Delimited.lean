import Mathlib.Data.List.Basic
import Mathlib.Tactic

/-!
# Self-delimiting encodings

An encoding is *self-delimiting* if it can be seen from the beginning of a text where the encoded
value ends, whatever comes behind it.  Then the value can be read off, too.  Sequences of
self-delimiting encodings, closed lists of them and encodings of their letters are self-delimiting.
-/

universe u v w

namespace PeripheralBench.Codec

variable {α : Type u} {β : Type v} {γ : Type w}

/-- Two texts that begin with an encoded value and are equal begin with the same one. -/
def Delimited (enc : α → List β) : Prop :=
  ∀ ⦃a b : α⦄ ⦃r s : List β⦄, enc a ++ r = enc b ++ s → a = b ∧ r = s

/-- It is enough to know the value. -/
theorem Delimited.of_eq {enc : α → List β}
    (h : ∀ a b r s, enc a ++ r = enc b ++ s → a = b) : Delimited enc := by
  intro a b r s heq
  have hab := h a b r s heq
  subst hab
  exact ⟨rfl, List.append_cancel_left heq⟩

/-- An encoding that can be decoded from the beginning of a text. -/
theorem Delimited.of_decode {enc : α → List β} (dec : List β → Option α)
    (h : ∀ a r, dec (enc a ++ r) = some a) : Delimited enc := by
  refine .of_eq fun a b r s heq ↦ ?_
  have hdec := h a r
  rw [heq, h] at hdec
  exact (Option.some_inj.mp hdec).symm

namespace Delimited

variable {enc : α → List β} {enc' : γ → List β}

/-- The same text before each value. -/
theorem after (h : Delimited enc) (before : List β) : Delimited fun a ↦ before ++ enc a := by
  intro a b r s heq
  rw [List.append_assoc, List.append_assoc] at heq
  exact h (List.append_cancel_left heq)

/-- One value after another. -/
theorem prod (h : Delimited enc) (h' : Delimited enc') :
    Delimited fun p : α × γ ↦ enc p.1 ++ enc' p.2 := by
  intro a b r s heq
  simp only [List.append_assoc] at heq
  obtain ⟨hfst, hrest⟩ := h heq
  obtain ⟨hsnd, hrs⟩ := h' hrest
  exact ⟨Prod.ext hfst hsnd, hrs⟩

/-- A list of values that ends with a text which no value begins with. -/
theorem closed (h : Delimited enc) {c : β} {close : List β}
    (hstart : ∀ a, ∃ x xs, enc a = x :: xs ∧ x ≠ c) :
    Delimited fun l : List α ↦ l.flatMap enc ++ c :: close := by
  have hclose : ∀ (a : α) (l : List α) (r s : List β),
      (a :: l).flatMap enc ++ c :: close ++ r ≠ c :: close ++ s := by
    intro a l r s heq
    obtain ⟨x, xs, hx, hne⟩ := hstart a
    rw [List.flatMap_cons, hx] at heq
    exact hne (List.cons.inj heq).1
  refine .of_eq fun l m r s heq ↦ ?_
  induction l generalizing m with
  | nil =>
      cases m with
      | nil => rfl
      | cons b m => exact absurd heq.symm (hclose b m s r)
  | cons a l ih =>
      cases m with
      | nil => exact absurd heq (hclose a l r s)
      | cons b m =>
          simp only [List.flatMap_cons, List.append_assoc] at heq
          obtain ⟨rfl, hrest⟩ := h heq
          simp only [← List.append_assoc] at hrest
          rw [ih m hrest]

/-- Each letter is encoded by itself. -/
theorem flatMap (h : Delimited enc) {code : β → List γ} (hcode : Delimited code) :
    Delimited fun a ↦ (enc a).flatMap code := by
  -- of two texts with equal encodings one is the beginning of the other
  have hprefix : ∀ (x y : List β) (r s : List γ), x.flatMap code ++ r = y.flatMap code ++ s →
      (∃ t, y = x ++ t) ∨ ∃ t, x = y ++ t := by
    intro x
    induction x with
    | nil => exact fun y _ _ _ ↦ .inl ⟨y, rfl⟩
    | cons c x ih =>
        intro y r s heq
        cases y with
        | nil => exact .inr ⟨c :: x, rfl⟩
        | cons d y =>
            simp only [List.flatMap_cons, List.append_assoc] at heq
            obtain ⟨rfl, hrest⟩ := hcode heq
            rcases ih y r s hrest with ⟨t, rfl⟩ | ⟨t, rfl⟩
            · exact .inl ⟨t, rfl⟩
            · exact .inr ⟨t, rfl⟩
  refine .of_eq fun a b r s heq ↦ ?_
  rcases hprefix (enc a) (enc b) r s heq with ⟨t, ht⟩ | ⟨t, ht⟩
  · exact (h (show enc a ++ t = enc b ++ [] by rw [ht, List.append_nil])).1
  · exact (h (show enc a ++ [] = enc b ++ t by rw [ht, List.append_nil])).1

end Delimited

/-! ## Separated lists -/

/-- `sep.join(texts)`. -/
def join (sep : List β) : List (List β) → List β
  | [] => []
  | [text] => text
  | text :: next :: texts => text ++ sep ++ join sep (next :: texts)

theorem join_cons (sep text : List β) (texts : List (List β)) :
    join sep (text :: texts) = text ++ texts.flatMap fun text ↦ sep ++ text := by
  induction texts generalizing text with
  | nil => exact (List.append_nil text).symm
  | cons next texts ih => rw [join, ih, List.flatMap_cons, List.append_assoc, List.append_assoc]

/-- A list of values with separators between them, and a text at its end. -/
theorem Delimited.separated {enc : α → List β} (h : Delimited enc) {x c : β} (hne : x ≠ c)
    {sep close : List β} (hstart : ∀ a, ∃ y ys, enc a = y :: ys ∧ y ≠ c) :
    Delimited fun l : List α ↦ join (x :: sep) (l.map enc) ++ c :: close := by
  have hnil : ∀ (a : α) (l : List α) (r s : List β),
      join (x :: sep) ((a :: l).map enc) ++ c :: close ++ r ≠ c :: close ++ s := by
    intro a l r s heq
    obtain ⟨y, ys, hy, hyc⟩ := hstart a
    rw [List.map_cons, join_cons, hy] at heq
    exact hyc (List.cons.inj heq).1
  have htail : Delimited fun l : List α ↦ l.flatMap (fun a ↦ x :: sep ++ enc a) ++ c :: close :=
    (h.after (x :: sep)).closed fun a ↦ ⟨x, sep ++ enc a, rfl, hne⟩
  refine .of_eq fun l m r s heq ↦ ?_
  cases l with
  | nil =>
      cases m with
      | nil => rfl
      | cons b m => exact absurd heq.symm (hnil b m s r)
  | cons a l =>
      cases m with
      | nil => exact absurd heq (hnil a l r s)
      | cons b m =>
          simp only [List.map_cons, join_cons, List.flatMap_map, List.append_assoc] at heq
          obtain ⟨rfl, hrest⟩ := h heq
          simp only [← List.append_assoc] at hrest
          rw [(htail hrest).1]

end PeripheralBench.Codec
