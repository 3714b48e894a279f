import Mathlib.Algebra.Group.Nat.Defs
import ArtifactLayout.CommandLine.Path
import ArtifactLayout.Corpus.Settings

/-! # The names of artifacts

The number of an artifact can be read off its name, and its name off its path in a directory. So no two
artifacts of a run share a file. The names of a run are equally long, and their bytes stand in the order
of the numbers, as digits that are padded to one width do.
-/

namespace ArtifactLayout
set_option autoImplicit false

/-! ## Bytes of texts -/

/-- A text as bytes of UTF-8. -/
def textBytes (text : String) : List UInt8 := text.toUTF8.data.toList

theorem textBytes_ofList (l : List Char) :
    textBytes (String.ofList l) = l.flatMap String.utf8EncodeChar := by
  rw [textBytes, String.toUTF8_eq_toByteArray, String.toByteArray_ofList, List.utf8Encode,
    List.toList_data_toByteArray]

/-- Of texts that differ before one of them ends, what follows does not change the order. -/
theorem append_lt_append {α : Type} [LT α] {xs ys : List α} (h : xs < ys)
    (hlength : xs.length = ys.length) (s t : List α) : xs ++ s < ys ++ t := by
  induction xs generalizing ys with
  | nil =>
    obtain rfl := List.length_eq_zero_iff.mp hlength.symm
    exact absurd h (List.not_lt_nil _)
  | cons x xs ih =>
    cases ys with
    | nil => cases hlength
    | cons y ys =>
      rw [List.cons_append, List.cons_append, List.cons_lt_cons_iff]
      rcases List.cons_lt_cons_iff.mp h with hxy | ⟨rfl, htail⟩
      · exact .inl hxy
      · exact .inr ⟨rfl, ih htail (Nat.succ.inj hlength)⟩

namespace Settings

/-- Padding with zeros does not change the number that digits spell. -/
theorem ofDigitChars_paddedDigits (width n : Nat) :
    Nat.ofDigitChars 10 (paddedDigits width n) 0 = n := by
  rw [paddedDigits, Nat.ofDigitChars_append, Nat.ofDigitChars_replicate_zero, Nat.mul_zero,
    Nat.ofDigitChars_ten_toDigits]

theorem paddedDigits_inj {width i j : Nat} (h : paddedDigits width i = paddedDigits width j) :
    i = j := by
  rw [← ofDigitChars_paddedDigits width i, h, ofDigitChars_paddedDigits]

theorem fileName_inj {settings : Settings} {i j : Nat}
    (h : settings.fileName i = settings.fileName j) : i = j := by
  have hchars := List.append_cancel_right (String.ofList_injective h)
  have hdigits := (List.cons.inj (List.append_cancel_left hchars)).2
  exact paddedDigits_inj hdigits

/-! ## Padded digits -/

theorem paddedDigits_one {n : Nat} (h : n < 10) : paddedDigits 1 n = [n.digitChar] := by
  simp [paddedDigits, Nat.toDigits_of_lt_base h]

/-- The last digit stands behind the digits of the tenth. -/
theorem paddedDigits_succ (width n : Nat) :
    paddedDigits (width + 2) n = paddedDigits (width + 1) (n / 10) ++ [(n % 10).digitChar] := by
  by_cases h : n < 10
  · rw [Nat.div_eq_of_lt h, Nat.mod_eq_of_lt h, paddedDigits, paddedDigits,
      Nat.toDigits_of_lt_base h, Nat.toDigits_zero]
    simp [List.replicate_succ']
  · have hdigits := Nat.toDigits_of_base_le (by decide : 1 < 10) (Nat.le_of_not_lt h)
    have hpadding (length : Nat) : width + 2 - (length + 1) = width + 1 - length := by omega
    rw [paddedDigits, paddedDigits, hdigits, ← List.append_assoc, List.length_append,
      List.length_singleton, hpadding]

theorem length_bytes_digitChar {d : Nat} (h : d < 10) :
    (String.utf8EncodeChar d.digitChar).length = 1 := by
  have hall : ∀ d : Fin 10, (String.utf8EncodeChar d.val.digitChar).length = 1 := by decide
  exact hall ⟨d, h⟩

theorem bytes_digitChar_lt {d e : Nat} (h : d < e) (he : e < 10) :
    String.utf8EncodeChar d.digitChar < String.utf8EncodeChar e.digitChar := by
  have hall : ∀ e : Fin 10, ∀ d : Fin e,
      String.utf8EncodeChar d.val.digitChar < String.utf8EncodeChar e.val.digitChar := by decide
  exact hall ⟨e, he⟩ ⟨d, h⟩

/-- The bytes of a number that is padded to a width. -/
def digitBytes (width n : Nat) : List UInt8 := (paddedDigits width n).flatMap String.utf8EncodeChar

theorem digitBytes_one {n : Nat} (h : n < 10) :
    digitBytes 1 n = String.utf8EncodeChar n.digitChar := by
  rw [digitBytes, paddedDigits_one h, List.flatMap_singleton]

theorem digitBytes_succ (width n : Nat) :
    digitBytes (width + 2) n =
      digitBytes (width + 1) (n / 10) ++ String.utf8EncodeChar (n % 10).digitChar := by
  rw [digitBytes, paddedDigits_succ, List.flatMap_append, List.flatMap_singleton, digitBytes]

theorem div_ten_lt {width n : Nat} (h : n < 10 ^ (width + 1)) : n / 10 < 10 ^ width :=
  Nat.div_lt_of_lt_mul (by rwa [Nat.pow_succ'] at h)

theorem length_digitBytes {width n : Nat} (h : n < 10 ^ (width + 1)) :
    (digitBytes (width + 1) n).length = width + 1 := by
  induction width generalizing n with
  | zero => rw [digitBytes_one h, length_bytes_digitChar h]
  | succ width ih =>
    rw [digitBytes_succ, List.length_append, ih (div_ten_lt h),
      length_bytes_digitChar (Nat.mod_lt n (by decide))]

/-- Numbers that fit a width are in the order of their bytes. -/
theorem digitBytes_lt {width i j : Nat} (h : i < j) (hj : j < 10 ^ (width + 1)) :
    digitBytes (width + 1) i < digitBytes (width + 1) j := by
  induction width generalizing i j with
  | zero =>
    rw [digitBytes_one (Nat.lt_trans h hj), digitBytes_one hj]
    exact bytes_digitChar_lt h hj
  | succ width ih =>
    have hi : i < 10 ^ (width + 2) := Nat.lt_trans h hj
    have htenth : i / 10 ≤ j / 10 := Nat.div_le_div_right (Nat.le_of_lt h)
    rw [digitBytes_succ, digitBytes_succ]
    -- what stands before the last digit decides, unless it is the same
    rcases Nat.lt_or_eq_of_le htenth with hlt | heq
    · have hlength : (digitBytes (width + 1) (i / 10)).length =
          (digitBytes (width + 1) (j / 10)).length := by
        rw [length_digitBytes (div_ten_lt hi), length_digitBytes (div_ten_lt hj)]
      exact append_lt_append (ih hlt (div_ten_lt hj)) hlength _ _
    · have hlast : i % 10 < j % 10 := by omega
      rw [heq]
      exact List.append_left_lt (bytes_digitChar_lt hlast (Nat.mod_lt j (by decide)))

/-! ## The names of a run -/

theorem exists_indexWidth (settings : Settings) : ∃ width, settings.indexWidth = width + 1 :=
  Nat.exists_eq_add_one.mpr (List.length_pos_iff.mpr Nat.toDigits_ne_nil)

/-- The width is made for the numbers of a run. -/
theorem lt_of_index {settings : Settings} {index : Nat} (h : index < settings.count) :
    index < 10 ^ settings.indexWidth := by
  have hlast : max (settings.count - 1) 1 < 10 ^ settings.indexWidth :=
    (Nat.length_toDigits_le_iff (by decide) (List.length_pos_iff.mpr Nat.toDigits_ne_nil)).mp
      (Nat.le_refl _)
  omega

theorem textBytes_fileName (settings : Settings) (index : Nat) :
    textBytes (settings.fileName index) =
      (settings.stem.toList ++ ['-']).flatMap String.utf8EncodeChar ++
        (digitBytes settings.indexWidth index ++ ".bin".toList.flatMap String.utf8EncodeChar) := by
  have hchars : settings.stem.toList ++ '-' :: paddedDigits settings.indexWidth index ++
      ".bin".toList = settings.stem.toList ++ ['-'] ++
        (paddedDigits settings.indexWidth index ++ ".bin".toList) := by simp
  rw [fileName, textBytes_ofList, hchars, digitBytes, ← List.flatMap_append, ← List.flatMap_append]

/-- The names of a run sort byte by byte in the order of its artifacts and are equally long; no two
numbers share a name, whether or not they belong to the run. -/
theorem names_in_order (settings : Settings) :
    (∀ i j, i < j → j < settings.count →
      textBytes (settings.fileName i) < textBytes (settings.fileName j)) ∧
    (∀ i j, i < settings.count → j < settings.count →
      (textBytes (settings.fileName i)).length = (textBytes (settings.fileName j)).length) ∧
    Function.Injective settings.fileName := by
  obtain ⟨width, hwidth⟩ := settings.exists_indexWidth
  have hfits {index : Nat} (h : index < settings.count) : index < 10 ^ (width + 1) :=
    hwidth ▸ lt_of_index h
  have hlength {index : Nat} (h : index < settings.count) :
      (digitBytes settings.indexWidth index).length = width + 1 := by
    rw [hwidth, length_digitBytes (hfits h)]
  refine ⟨fun i j hij hj => ?_, fun i j hi hj => ?_, fun i j h => fileName_inj h⟩
  · have hdigits : digitBytes settings.indexWidth i < digitBytes settings.indexWidth j := by
      rw [hwidth]
      exact digitBytes_lt hij (hfits hj)
    have hsame := (hlength (Nat.lt_trans hij hj)).trans (hlength hj).symm
    rw [textBytes_fileName, textBytes_fileName]
    exact List.append_left_lt (append_lt_append hdigits hsame _ _)
  · simp only [textBytes_fileName, List.length_append, hlength hi, hlength hj]

/-- A run in which numbers of one, two and three digits meet. -/
def longRun : Settings := { Settings.default with count := 101 }

theorem names_in_order_sample :
    (9 < 10 ∧ 10 < longRun.count ∧ 100 < longRun.count) ∧
    textBytes (longRun.fileName 9) < textBytes (longRun.fileName 10) ∧
    (textBytes (longRun.fileName 10)).length = (textBytes (longRun.fileName 100)).length := by
  obtain ⟨horder, hlength, -⟩ := names_in_order longRun
  exact ⟨by decide, horder 9 10 (by decide) (by decide), hlength 10 100 (by decide) (by decide)⟩

/-- A number of that run is padded; one past its end takes the digits it needs. -/
example : longRun.fileName 7 = "case-007.bin" ∧ longRun.fileName 1234 = "case-1234.bin" := by
  decide +kernel

end Settings

/-! ## Paths -/

namespace CommandLine.Path

/-- The stem that all files share decides whether they are named from the root. -/
theorem isRooted_fileName (settings : Settings) (index : Nat) :
    isRooted (settings.fileName index) = isRooted settings.stem := by
  rw [isRooted, isRooted, Settings.fileName, String.toList_ofList]
  cases settings.stem.toList with
  | nil => rfl
  | cons first rest => rfl

/-- Within a directory, different paths lead to different places if both start at the root or neither. -/
theorem inside_inj {directory name other : String} (hrooted : isRooted name = isRooted other)
    (h : inside directory name = inside directory other) : name = other := by
  rw [inside, inside, hrooted] at h
  split at h
  · exact h
  · split at h <;> exact (String.append_right_inj _).mp h

end CommandLine.Path
end ArtifactLayout
