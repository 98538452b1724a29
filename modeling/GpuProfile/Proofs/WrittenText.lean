import Mathlib
import GpuProfile.Json.Text

namespace GpuProfile.Json

theorem escape_cases (c : Char) :
    (∃ d, d ≠ 'u' ∧ simpleEscape d = some c ∧ escape c = ['\\', d]) ∨
      (c < ' ' ∧ escape c =
        ['\\', 'u', '0', '0', Nat.digitChar (c.toNat / 16), Nat.digitChar (c.toNat % 16)]) ∨
      (c ≠ '"' ∧ c ≠ '\\' ∧ ¬c < ' ' ∧ escape c = [c]) := by
  unfold escape
  split
  · exact .inl ⟨'"', by decide, rfl, rfl⟩
  · exact .inl ⟨'\\', by decide, rfl, rfl⟩
  · exact .inl ⟨'b', by decide, rfl, rfl⟩
  · exact .inl ⟨'f', by decide, rfl, rfl⟩
  · exact .inl ⟨'n', by decide, rfl, rfl⟩
  · exact .inl ⟨'r', by decide, rfl, rfl⟩
  · exact .inl ⟨'t', by decide, rfl, rfl⟩
  · next hquote hslash _ _ _ _ _ =>
    split
    · next hc => exact .inr (.inl ⟨hc, rfl⟩)
    · next hc => exact .inr (.inr ⟨hquote, hslash, hc, rfl⟩)

theorem isHex_digitChar : ∀ n < 16, isHex (Nat.digitChar n) = true := by decide

theorem unit_digitChar : ∀ n < 32, unit '0' '0' (Nat.digitChar (n / 16)) (Nat.digitChar (n % 16)) = n := by decide

theorem not_surrogate {n : ℕ} (h : n < 32) : isLead n = false ∧ isTrail n = false := by
  simp only [isLead, isTrail]
  constructor <;> simp <;> omega

theorem lt_of_control {c : Char} (h : c < ' ') : c.toNat < 32 := h

theorem scanText_escape (c : Char) (cs : List Char) :
    scanText (escape c ++ cs) = (scanText cs).map fun p => (escape c ++ p.1, p.2) := by
  obtain ⟨d, hd, hsimple, he⟩ | ⟨hc, he⟩ | ⟨hquote, hslash, hc, he⟩ := escape_cases c
  · rw [he, List.cons_append, List.cons_append, List.nil_append, scanText.eq_4 d cs (fun _ _ _ _ _ h _ => hd h),
      hsimple]
    rfl
  · have hlow := lt_of_control hc
    simp only [he, List.cons_append, List.nil_append]
    rw [scanText.eq_3, isHex_digitChar _ (by omega), isHex_digitChar _ (by omega)]
    rfl
  · rw [he, List.cons_append, List.nil_append, scanText.eq_5 c cs hquote (fun _ _ _ _ _ h _ => hslash h)
      (fun _ _ h _ => hslash h), if_neg hc]
    rfl

theorem unescape_unit {a b c d : Char} (h : isLead (unit a b c d) = false ∧ isTrail (unit a b c d) = false)
    (cs : List Char) :
    unescape ('\\' :: 'u' :: a :: b :: c :: d :: cs) = (unescape cs).map (Char.ofNat (unit a b c d) :: ·) := by
  by_cases hnext : ∃ e f g k rest, cs = '\\' :: 'u' :: e :: f :: g :: k :: rest
  · obtain ⟨e, f, g, k, rest, rfl⟩ := hnext
    rw [unescape.eq_2, h.1, h.2]
    rfl
  · rw [unescape.eq_3 a b c d cs fun e f g k rest he => hnext ⟨e, f, g, k, rest, he⟩, h.1, h.2]
    rfl

theorem unescape_escape (c : Char) (cs : List Char) :
    unescape (escape c ++ cs) = (unescape cs).map (c :: ·) := by
  obtain ⟨d, hd, hsimple, he⟩ | ⟨hc, he⟩ | ⟨hquote, hslash, hc, he⟩ := escape_cases c
  · rw [he, List.cons_append, List.cons_append, List.nil_append,
      unescape.eq_4 d cs (fun _ _ _ _ _ _ _ _ _ h _ => hd h) (fun _ _ _ _ _ h _ => hd h), hsimple]
    cases unescape cs <;> rfl
  · have hunit := unit_digitChar c.toNat (lt_of_control hc)
    have hwhole := not_surrogate (lt_of_control hc)
    rw [← hunit] at hwhole
    rw [he]
    simp only [List.cons_append, List.nil_append]
    rw [unescape_unit hwhole cs, hunit, Char.ofNat_toNat]
  · rw [he, List.cons_append, List.nil_append, unescape.eq_5 c cs (fun _ _ _ _ _ _ _ _ _ h _ => hslash h)
      (fun _ _ _ _ _ h _ => hslash h) (fun _ _ h _ => hslash h)]

theorem scanText_flatMap_escape (cs rest : List Char) :
    scanText (cs.flatMap escape ++ '"' :: rest) = some (cs.flatMap escape, rest) := by
  induction cs with
  | nil => rfl
  | cons c cs ih =>
    rw [List.flatMap_cons, List.append_assoc, scanText_escape, ih]
    rfl

theorem unescape_flatMap_escape (cs : List Char) : unescape (cs.flatMap escape) = some cs := by
  induction cs with
  | nil => rfl
  | cons c cs ih =>
    rw [List.flatMap_cons, unescape_escape, ih]
    rfl

end GpuProfile.Json
