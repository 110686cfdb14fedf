import VeilNetwork.Lib.Cursor

/-!
# Texts as bytes

A text is its UTF-8 bytes, and any bytes that are valid UTF-8 are a text. The zero byte is one of
them: texts joined with it can be told apart if it is known how often each of them has it
(`Text.terminated_inj`).
-/

namespace VeilNetwork

open List

namespace Text

def bytes (s : String) : List UInt8 := s.toByteArray.data.toList

def ofBytes (l : List UInt8) : Option String := String.fromUTF8? ⟨⟨l⟩⟩

theorem ofBytes_eq_some_iff {l : List UInt8} {s : String} : ofBytes l = some s ↔ l = bytes s := by
  constructor
  · intro h
    rw [ofBytes, String.fromUTF8?] at h
    split at h
    · cases h
      rfl
    · cases h
  · rintro rfl
    exact dif_pos s.isValidUTF8

theorem bytes_inj {s t : String} (h : bytes s = bytes t) : s = t :=
  String.toByteArray_inj.mp (ByteArray.ext (Array.toList_inj.mp h))

/-! ### Terminated texts -/

/-- How many zero bytes a text has. -/
def zeros (s : String) : ℕ := (bytes s).count 0

/-- What stands before a zero is determined by the zeros in it, and so is what stands after it. -/
theorem append_zero_inj {a b x y : List UInt8} (hcount : a.count 0 = b.count 0)
    (h : a ++ 0 :: x = b ++ 0 :: y) : a = b ∧ x = y := by
  induction a generalizing b with
  | nil =>
    cases b with
    | nil => exact ⟨rfl, (cons.inj h).2⟩
    | cons v b =>
      obtain rfl := (cons.inj h).1
      rw [count_cons_self] at hcount
      cases hcount
  | cons u a ih =>
    cases b with
    | nil =>
      obtain rfl := (cons.inj h).1
      rw [count_cons_self] at hcount
      cases hcount
    | cons v b =>
      obtain ⟨rfl, htail⟩ := cons.inj h
      rw [count_cons, count_cons] at hcount
      obtain ⟨rfl, rfl⟩ := ih (Nat.add_right_cancel hcount) htail
      exact ⟨rfl, rfl⟩

/-- Texts, each with a zero after it. -/
def terminated (texts : List String) : List UInt8 := texts.flatMap fun s => bytes s ++ [0]

/-- **Terminated texts can be told apart** by the zeros in them. -/
theorem terminated_inj {texts texts' : List String} (hzeros : texts.map zeros = texts'.map zeros)
    (h : terminated texts = terminated texts') : texts = texts' := by
  induction texts generalizing texts' with
  | nil => exact (map_eq_nil_iff.mp hzeros.symm).symm
  | cons s texts ih =>
    cases texts' with
    | nil => cases hzeros
    | cons t texts' =>
      obtain ⟨hs, htail⟩ := cons.inj hzeros
      simp only [terminated, flatMap_cons, append_assoc] at h
      obtain ⟨hbytes, htexts⟩ := append_zero_inj hs h
      obtain rfl := bytes_inj hbytes
      obtain rfl := ih htail htexts
      rfl

end Text

namespace Cursor

variable {ε : Type} {buf rest : List UInt8} {s : String}

/-- Bytes already read as a text, or the error for bytes that are none. -/
def text (l : List UInt8) (e : ε) : Cursor ε String := fun buf =>
  match Text.ofBytes l with
  | some s => .ok (s, buf)
  | none => .error e

theorem text_eq_ok_iff {l : List UInt8} {e : ε} :
    text l e buf = .ok (s, rest) ↔ l = Text.bytes s ∧ buf = rest := by
  rw [← Text.ofBytes_eq_some_iff, text]
  cases Text.ofBytes l with
  | none | some => simp

end Cursor

end VeilNetwork
