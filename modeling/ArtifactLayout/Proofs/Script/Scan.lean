import Mathlib.Data.List.Chain
import Mathlib.Data.List.TakeWhile
import ArtifactLayout.Proofs.Script.Written

/-! # Scanning

Scanning gives some tokens exactly for the texts that are written as these tokens, as long as no two of
them run into each other. Layout is skipped as a whole, a token is read as far as it reaches, and both
can be read back off a scan that succeeded.
-/

namespace ArtifactLayout.Script
set_option autoImplicit false

variable {c : Char} {text rest out : List Char} {token : Token}

/-! ## Skipping layout -/

theorem skip_blank (h : isBlank c = true) (rest : List Char) :
    skip .blanks (c :: rest) = skip .blanks rest := by
  simp only [isBlank, Bool.or_eq_true, decide_eq_true_eq] at h
  obtain ((rfl | rfl) | rfl) | rfl := h <;> rfl

theorem skip_other (hblank : isBlank c = false) (hslash : c ≠ '/') (rest : List Char) :
    skip .blanks (c :: rest) = some (c :: rest) := by
  simp [skip, hblank, hslash]

theorem skip_lineComment {comment : List Char} (h : '\n' ∉ comment) (rest : List Char) :
    skip .lineComment (comment ++ '\n' :: rest) = skip .blanks rest := by
  induction comment with
  | nil => rfl
  | cons c comment ih =>
    obtain ⟨hc, hcomment⟩ := not_or.mp (mt List.mem_cons.mpr h)
    rw [List.cons_append, skip, if_neg (Ne.symm hc)]
    exact ih hcomment

theorem skip_lineComment_end {comment : List Char} (h : '\n' ∉ comment) :
    skip .lineComment comment = some [] := by
  induction comment with
  | nil => rfl
  | cons c comment ih =>
    obtain ⟨hc, hcomment⟩ := not_or.mp (mt List.mem_cons.mpr h)
    rw [skip, if_neg (Ne.symm hc)]
    exact ih hcomment

/-- One character inside a block comment, unless it starts the end of the comment. -/
theorem skip_blockComment_cons (h : ∀ rest, ¬ (c = '*' ∧ text = '/' :: rest)) :
    skip .blockComment (c :: text) = skip .blockComment text := by
  rw [skip]
  rintro rest rfl rfl
  exact h rest ⟨rfl, rfl⟩

theorem skip_blockComment {comment : List Char} (h : ¬ ['*', '/'] <:+: comment) (rest : List Char) :
    skip .blockComment (comment ++ '*' :: '/' :: rest) = skip .blanks rest := by
  induction comment with
  | nil => rfl
  | cons c comment ih =>
    rw [List.infix_cons_iff, not_or] at h
    obtain ⟨hstart, hcomment⟩ := h
    rw [List.cons_append, skip_blockComment_cons ?_, ih hcomment]
    rintro after ⟨rfl, hafter⟩
    cases comment with
    | nil => cases hafter
    | cons d comment =>
      obtain rfl := (List.cons.inj hafter).1
      exact hstart ⟨comment, rfl⟩

theorem skip_space {space : List Char} (h : Space space) (rest : List Char) :
    skip .blanks (space ++ rest) = skip .blanks rest := by
  cases h with
  | blank h => exact skip_blank h rest
  | @line comment h =>
    have hskip := skip_lineComment h rest
    simpa only [List.cons_append, List.append_assoc, List.nil_append, skip] using hskip
  | @block comment h =>
    have hskip := skip_blockComment h rest
    simpa only [List.cons_append, List.append_assoc, List.nil_append, skip] using hskip

theorem skip_layout {gap : List Char} (h : Layout gap) (rest : List Char) :
    skip .blanks (gap ++ rest) = skip .blanks rest := by
  induction h with
  | nil => rfl
  | cons hspace _ ih => rw [List.append_assoc, skip_space hspace, ih]

theorem skip_closing {gap : List Char} (h : Closing gap) : skip .blanks gap = some [] := by
  cases h with
  | layout h =>
    have hskip := skip_layout h []
    rwa [List.append_nil] at hskip
  | comment h hcomment =>
    rw [skip_layout h]
    exact skip_lineComment_end hcomment

/-! ## Reading layout back -/

theorem of_skip_lineComment (h : skip .lineComment text = some out) :
    ('\n' ∉ text ∧ out = []) ∨ ∃ comment rest, '\n' ∉ comment ∧ text = comment ++ '\n' :: rest ∧
      skip .blanks rest = some out := by
  induction text with
  | nil => exact .inl ⟨List.not_mem_nil, (Option.some.inj h).symm⟩
  | cons c text ih =>
    rw [skip] at h
    split at h
    · rename_i hc
      exact .inr ⟨[], text, List.not_mem_nil, hc ▸ rfl, h⟩
    · rename_i hc
      rcases ih h with ⟨hnone, hout⟩ | ⟨comment, rest, hcomment, rfl, hrest⟩
      · exact .inl ⟨List.not_mem_cons_of_ne_of_not_mem (Ne.symm hc) hnone, hout⟩
      · exact .inr ⟨c :: comment, rest, List.not_mem_cons_of_ne_of_not_mem (Ne.symm hc) hcomment, rfl,
          hrest⟩

theorem of_skip_blockComment (h : skip .blockComment text = some out) :
    ∃ comment rest, ¬ ['*', '/'] <:+: comment ∧ text = comment ++ '*' :: '/' :: rest ∧
      skip .blanks rest = some out := by
  induction text with
  | nil => cases h
  | cons c text ih =>
    by_cases hend : ∃ rest, c = '*' ∧ text = '/' :: rest
    · obtain ⟨rest, rfl, rfl⟩ := hend
      exact ⟨[], rest, by simp, rfl, h⟩
    · rw [skip_blockComment_cons fun rest hrest => hend ⟨rest, hrest⟩] at h
      obtain ⟨comment, rest, hcomment, rfl, hrest⟩ := ih h
      refine ⟨c :: comment, rest, ?_, rfl, hrest⟩
      rw [List.infix_cons_iff, not_or]
      refine ⟨?_, hcomment⟩
      rintro ⟨after, hafter⟩
      obtain ⟨rfl, rfl⟩ := List.cons.inj hafter
      exact hend ⟨after ++ '*' :: '/' :: rest, rfl, rfl⟩

/-- What skipping finds: the end of the text, or the first character of a token. -/
def Skipped (text out : List Char) : Prop :=
  (out = [] ∧ Closing text) ∨ ∃ gap c rest, out = c :: rest ∧ Layout gap ∧ text = gap ++ out

theorem Skipped.cons {space : List Char} (hspace : Space space) (h : Skipped rest out) :
    Skipped (space ++ rest) out := by
  rcases h with ⟨hout, hclosing⟩ | ⟨gap, c, after, hout, hgap, rfl⟩
  · refine .inl ⟨hout, ?_⟩
    cases hclosing with
    | layout hgap => exact .layout (.cons hspace hgap)
    | comment hgap hcomment =>
      rw [← List.append_assoc]
      exact .comment (.cons hspace hgap) hcomment
  · exact .inr ⟨space ++ gap, c, after, hout, .cons hspace hgap, (List.append_assoc _ _ _).symm⟩

theorem of_skip (h : skip .blanks text = some out) : Skipped text out := by
  induction hn : text.length using Nat.strong_induction_on generalizing text with
  | _ n ih =>
    subst hn
    unfold skip at h
    split at h
    · exact .inl ⟨(Option.some.inj h).symm, .layout .nil⟩
    · rcases of_skip_lineComment h with ⟨hnone, hout⟩ | ⟨comment, rest, hcomment, rfl, hrest⟩
      · exact .inl ⟨hout, .comment .nil hnone⟩
      · have hskipped := (ih rest.length (by simp; omega) hrest rfl).cons (.line hcomment)
        simpa using hskipped
    · obtain ⟨comment, rest, hcomment, rfl, hrest⟩ := of_skip_blockComment h
      have hskipped := (ih rest.length (by simp; omega) hrest rfl).cons (.block hcomment)
      simpa using hskipped
    · rename_i c rest _ _ _
      split at h
      · rename_i hblank
        exact (ih rest.length (by simp) h rfl).cons (.blank hblank)
      · split at h
        · cases h
        · obtain rfl := Option.some.inj h
          exact .inr ⟨[], c, rest, rfl, .nil, rfl⟩
    all_goals rename_i hmode; cases hmode

/-! ## Character classes -/

theorem isWordStart_iff : isWordStart c = true ↔
    65 ≤ c.toNat ∧ c.toNat ≤ 90 ∨ 97 ≤ c.toNat ∧ c.toNat ≤ 122 ∨ c.toNat = 95 := by
  delta isWordStart Char.isAlpha Char.isUpper Char.isLower
  simp only [Bool.or_eq_true, Bool.and_eq_true, decide_eq_true_eq, ge_iff_le, UInt32.le_iff_toNat_le,
    or_assoc, Char.ext_iff, ← UInt32.toNat_inj]
  rfl

theorem isDigit_iff : c.isDigit = true ↔ 48 ≤ c.toNat ∧ c.toNat ≤ 57 := Char.isDigit_iff_toNat

theorem isHexDigit_iff : isHexDigit c = true ↔
    48 ≤ c.toNat ∧ c.toNat ≤ 57 ∨ 97 ≤ c.toNat ∧ c.toNat ≤ 102 ∨ 65 ≤ c.toNat ∧ c.toNat ≤ 70 := by
  simp only [isHexDigit, Text.hexValue?, Char.le_def, UInt32.le_iff_toNat_le]
  change Option.isSome (if 48 ≤ c.toNat ∧ c.toNat ≤ 57 then some (c.toNat - 48)
    else if 97 ≤ c.toNat ∧ c.toNat ≤ 102 then some (c.toNat - 87)
    else if 65 ≤ c.toNat ∧ c.toNat ≤ 70 then some (c.toNat - 55) else none) = true ↔ _
  split
  · simp_all
  · split
    · simp_all
    · split <;> simp_all

theorem isWordChar_iff : isWordChar c = true ↔ isWordStart c = true ∨ c.isDigit = true := by
  simp only [isWordChar, isWordStart, Char.isAlphanum, Bool.or_eq_true]
  exact or_right_comm

theorem isWordChar_of_isHexDigit (h : isHexDigit c = true) : isWordChar c = true := by
  rw [isHexDigit_iff] at h
  rw [isWordChar_iff, isWordStart_iff, isDigit_iff]
  omega

theorem isDigit_eq_false_of_isWordStart (h : isWordStart c = true) : c.isDigit = false := by
  rw [isWordStart_iff] at h
  rw [← Bool.not_eq_true, isDigit_iff]
  omega

theorem isWordChar_of_isBlank (h : isBlank c = true) : isWordChar c = false := by
  simp only [isBlank, Bool.or_eq_true, decide_eq_true_eq] at h
  obtain ((rfl | rfl) | rfl) | rfl := h <;> decide

/-- A word or a numeral would not go on in the text. -/
def NotWord (text : List Char) : Prop := ∀ c ∈ text.head?, isWordChar c = false

theorem NotWord.not_of {p : Char → Bool} (h : NotWord text) (hp : ∀ c, p c = true → isWordChar c = true) :
    ∀ c ∈ text.head?, p c = false := by
  intro c hc
  rw [← Bool.not_eq_true]
  exact fun hpc => absurd (hp c hpc) (by rw [h c hc]; exact Bool.false_ne_true)

/-- A longest run of characters ends where a character follows that does not belong to it. -/
theorem takeWhile_append {p : Char → Bool} {run : List Char} (hrun : ∀ c ∈ run, p c = true)
    (htext : ∀ c ∈ text.head?, p c = false) : (run ++ text).takeWhile p = run := by
  rw [List.takeWhile_append_of_pos hrun]
  cases text with
  | nil => exact List.append_nil run
  | cons c text =>
    rw [List.takeWhile_cons_of_neg (by rw [htext c rfl]; exact Bool.false_ne_true)]
    exact List.append_nil run

theorem dropWhile_append {p : Char → Bool} {run : List Char} (hrun : ∀ c ∈ run, p c = true)
    (htext : ∀ c ∈ text.head?, p c = false) : (run ++ text).dropWhile p = text := by
  rw [List.dropWhile_append_of_pos hrun]
  cases text with
  | nil => rfl
  | cons c text => exact List.dropWhile_cons_of_neg (by rw [htext c rfl]; exact Bool.false_ne_true)

theorem head?_dropWhile (p : Char → Bool) (text : List Char) :
    ∀ c ∈ (text.dropWhile p).head?, p c = false := by
  intro c hc
  have h := List.head?_dropWhile_not p text
  rw [hc] at h
  exact h

/-! ## Reading one token -/

namespace Token

/-- Tokens that go on as long as letters, digits or underscores follow. -/
def Wordy : Token → Prop
  | keyword _ | name _ | numeral _ => True
  | literal _ | mark _ => False

end Token

/-! ### Words -/

/-- Keywords are made of the characters that names are made of. -/
theorem Keyword.exists_text (k : Keyword) : ∃ c run, k.text.toList = c :: run ∧
    isWordStart c = true ∧ ∀ d ∈ run, isWordChar d = true := by
  have hshape : k.text.toList.head?.any isWordStart = true ∧
      k.text.toList.tail.all isWordChar = true := by
    cases k <;> decide
  obtain ⟨c, hhead, hc⟩ := (Option.any_eq_true _ _).mp hshape.1
  exact ⟨c, _, List.eq_cons_of_mem_head? hhead, hc, List.all_eq_true.mp hshape.2⟩

theorem ofText?_text (k : Keyword) : Keyword.ofText? k.text = some k := by
  cases k <;> decide

theorem ofText?_eq_none_iff {word : String} :
    Keyword.ofText? word = none ↔ ∀ k : Keyword, k.text ≠ word := by
  have hall : ∀ k : Keyword, k ∈ Keyword.all := by
    intro k
    cases k <;> decide
  rw [Keyword.ofText?, List.find?_eq_none]
  constructor
  · intro h k
    simpa using h k (hall k)
  · intro h k _
    simpa using h k

theorem text_of_ofText? {word : String} {k : Keyword} (h : Keyword.ofText? word = some k) :
    k.text = word := by
  simpa using List.find?_some h

theorem next?_word {run : List Char} (hstart : isWordStart c = true)
    (hrun : ∀ d ∈ run, isWordChar d = true) (htext : NotWord text) :
    next? c (run ++ text) = some (wordToken (String.ofList (c :: run)), text) := by
  rw [next?, if_pos hstart, takeWhile_append hrun htext, dropWhile_append hrun htext]

/-! ### Numerals -/

def StartsHex (text : List Char) : Prop :=
  ∃ x digit rest, text = '0' :: x :: digit :: rest ∧ (x = 'x' ∨ x = 'X') ∧ isHexDigit digit = true

theorem splitNumeral_eq (h : ¬ StartsHex text) :
    splitNumeral text = (text.takeWhile Char.isDigit, text.dropWhile Char.isDigit) := by
  unfold splitNumeral
  split
  · rename_i x digit rest
    rw [if_neg fun hhex => h ⟨x, digit, rest, rfl, hhex⟩]
    rfl
  · rfl

theorem splitNumeral_of_decimal {digits : List Char} (h : ∀ c ∈ digits, c.isDigit = true)
    (hne : digits ≠ []) (htext : NotWord text) : splitNumeral (digits ++ text) = (digits, text) := by
  have hend := htext.not_of fun c hc => isWordChar_iff.mpr (.inr hc)
  rw [splitNumeral_eq, takeWhile_append h hend, dropWhile_append h hend]
  rintro ⟨x, digit, rest, heq, hx, -⟩
  -- neither a digit nor what follows a numeral is an `x`
  have hword : x.isDigit = true ∨ isWordChar x = false := by
    obtain ⟨d, digits, rfl⟩ := List.exists_cons_of_ne_nil hne
    rw [List.cons_append] at heq
    obtain ⟨-, heq⟩ := List.cons.inj heq
    cases digits with
    | nil =>
      rw [List.nil_append] at heq
      exact .inr (htext x (heq ▸ rfl))
    | cons e digits =>
      obtain ⟨rfl, -⟩ := List.cons.inj heq
      exact .inl (h e (by simp))
  rcases hx with rfl | rfl <;> exact absurd hword (by decide)

theorem splitNumeral_of_hexadecimal {x : Char} {digits : List Char} (hx : x = 'x' ∨ x = 'X')
    (hne : digits ≠ []) (h : ∀ c ∈ digits, isHexDigit c = true) (htext : NotWord text) :
    splitNumeral ('0' :: x :: (digits ++ text)) = ('0' :: x :: digits, text) := by
  cases digits with
  | nil => exact absurd rfl hne
  | cons digit digits =>
    obtain ⟨hdigit, hdigits⟩ := List.forall_mem_cons.mp h
    have hend := htext.not_of fun c hc => isWordChar_of_isHexDigit hc
    rw [List.cons_append, splitNumeral, if_pos ⟨hx, hdigit⟩, takeWhile_append hdigits hend,
      dropWhile_append hdigits hend]

theorem splitNumeral_of_isNumeral {numeral : List Char} (h : IsNumeral numeral) (htext : NotWord text) :
    splitNumeral (numeral ++ text) = (numeral, text) := by
  cases h with
  | decimal hne h => exact splitNumeral_of_decimal h hne htext
  | hexadecimal hx hne h => exact splitNumeral_of_hexadecimal hx hne h htext

theorem of_splitNumeral {numeral after : List Char} (hdigit : c.isDigit = true)
    (h : splitNumeral (c :: rest) = (numeral, after)) :
    IsNumeral numeral ∧ c :: rest = numeral ++ after := by
  have hdecimal : IsNumeral ((c :: rest).takeWhile Char.isDigit) := by
    refine .decimal ?_ fun d hd => List.mem_takeWhile_imp hd
    rw [List.takeWhile_cons_of_pos hdigit]
    exact List.cons_ne_nil _ _
  by_cases hhex : StartsHex (c :: rest)
  · obtain ⟨x, digit, more, heq, hx, hfirst⟩ := hhex
    rw [heq, splitNumeral, if_pos ⟨hx, hfirst⟩] at h
    obtain ⟨rfl, rfl⟩ := Prod.mk.inj h
    refine ⟨.hexadecimal hx (List.cons_ne_nil _ _) fun d hd => ?_, ?_⟩
    · rcases List.mem_cons.mp hd with rfl | hd
      · exact hfirst
      · exact List.mem_takeWhile_imp hd
    · rw [heq]
      simp [List.takeWhile_append_dropWhile]
  · obtain ⟨rfl, rfl⟩ := Prod.mk.inj ((splitNumeral_eq hhex).symm.trans h)
    exact ⟨hdecimal, List.takeWhile_append_dropWhile.symm⟩

/-! ### Literals -/

theorem splitLiteral?_of_isBody {body : List Char} (h : IsBody body) (text : List Char) :
    splitLiteral? (body ++ '"' :: text) = some (body, text) := by
  induction h with
  | nil => rfl
  | escaped c _ ih =>
    rw [List.cons_append, List.cons_append, splitLiteral?, ih]
    rfl
  | @plain c rest hquote hslash _ ih =>
    rw [List.cons_append, splitLiteral?, ih]
    · rfl
    · exact hquote
    · exact fun _ _ hc => absurd hc hslash

theorem of_splitLiteral? {body after : List Char} (h : splitLiteral? text = some (body, after)) :
    IsBody body ∧ text = body ++ '"' :: after := by
  fun_induction splitLiteral? text generalizing body with
  | case1 => cases h
  | case2 rest =>
    obtain ⟨rfl, rfl⟩ := Prod.mk.inj (Option.some.inj h)
    exact ⟨.nil, rfl⟩
  | case3 c rest ih =>
    obtain ⟨⟨inner, _⟩, hinner, heq⟩ := Option.map_eq_some_iff.mp h
    obtain ⟨rfl, rfl⟩ := Prod.mk.inj heq
    obtain ⟨hbody, rfl⟩ := ih hinner
    exact ⟨.escaped c hbody, rfl⟩
  | case4 c rest hquote hslash ih =>
    obtain ⟨⟨inner, _⟩, hinner, heq⟩ := Option.map_eq_some_iff.mp h
    obtain ⟨rfl, rfl⟩ := Prod.mk.inj heq
    obtain ⟨hbody, rfl⟩ := ih hinner
    refine ⟨.plain hquote ?_ hbody, rfl⟩
    rintro rfl
    cases inner with
    | nil => exact hslash _ _ rfl rfl
    | cons d inner => exact hslash _ _ rfl rfl

/-! ### Any token -/

/-- The first character of a token is no layout. -/
theorem Token.Proper.exists_chars (h : token.Proper) :
    ∃ c run, token.chars = c :: run ∧ isBlank c = false ∧ c ≠ '/' := by
  have hword : ∀ c, isWordChar c = true → isBlank c = false ∧ c ≠ '/' := by
    intro c hc
    constructor
    · rw [← Bool.not_eq_true]
      intro hblank
      rw [isWordChar_of_isBlank hblank] at hc
      cases hc
    · rintro rfl
      exact absurd hc (by decide)
  cases token with
  | keyword k =>
    obtain ⟨c, run, hk, hstart, -⟩ := k.exists_text
    exact ⟨c, run, hk, hword c (isWordChar_iff.mpr (.inl hstart))⟩
  | name text =>
    obtain ⟨c, run, htext, hstart, -⟩ := h.start
    exact ⟨c, run, htext, hword c (isWordChar_iff.mpr (.inl hstart))⟩
  | numeral text =>
    cases h with
    | @decimal digits hne h =>
      obtain ⟨c, run, rfl⟩ := List.exists_cons_of_ne_nil hne
      exact ⟨c, run, rfl, hword c (isWordChar_iff.mpr (.inr (h c List.mem_cons_self)))⟩
    | hexadecimal hx hne h => exact ⟨'0', _, rfl, by decide, by decide⟩
  | literal body => exact ⟨'"', _, rfl, by decide, by decide⟩
  | mark m => cases m <;> exact ⟨_, _, rfl, by decide, by decide⟩

/-- A token is read as far as it is written. -/
theorem next?_of_proper {run : List Char} (h : token.Proper) (hchars : token.chars = c :: run)
    (htext : token.Wordy → NotWord text) : next? c (run ++ text) = some (token, text) := by
  cases token with
  | keyword k =>
    obtain ⟨d, rest, hk, hstart, hrest⟩ := k.exists_text
    obtain ⟨rfl, rfl⟩ := List.cons.inj (hk.symm.trans hchars)
    have htoken : String.ofList (d :: rest) = k.text := by rw [← hk]; exact String.ofList_toList
    rw [next?_word hstart hrest (htext trivial), htoken, wordToken, ofText?_text]
  | name name =>
    obtain ⟨d, rest, hname, hstart, hrest⟩ := h.start
    obtain ⟨rfl, rfl⟩ := List.cons.inj (hname.symm.trans hchars)
    have htoken : String.ofList (d :: rest) = name := by rw [← hname]; exact String.ofList_toList
    rw [next?_word hstart hrest (htext trivial), htoken, wordToken,
      ofText?_eq_none_iff.mpr h.ne_keyword]
  | numeral numeral =>
    obtain rfl : numeral = c :: run := hchars
    have hdigit : c.isDigit = true := by
      cases h with
      | decimal hne h => exact h c List.mem_cons_self
      | hexadecimal hx hne h => decide
    have hstart : ¬ isWordStart c = true := fun hstart => by
      rw [isDigit_eq_false_of_isWordStart hstart] at hdigit
      cases hdigit
    have hsplit := splitNumeral_of_isNumeral h (htext trivial)
    rw [List.cons_append] at hsplit
    rw [next?, if_neg hstart, if_pos hdigit, hsplit]
  | literal body =>
    obtain ⟨rfl, rfl⟩ := List.cons.inj hchars
    have hsplit := splitLiteral?_of_isBody h text
    rw [List.append_assoc]
    exact congrArg (Option.map _) hsplit
  | mark m =>
    obtain ⟨rfl, rfl⟩ := List.cons.inj hchars
    cases m <;> rfl

/-- What was read is how the token is written, and a keyword ends only where no word goes on. -/
theorem of_next? (h : next? c rest = some (token, text)) :
    token.Proper ∧ c :: rest = token.chars ++ text ∧ ((∃ k, token = .keyword k) → NotWord text) := by
  rw [next?] at h
  split at h
  · rename_i hstart
    obtain ⟨rfl, rfl⟩ := Prod.mk.inj (Option.some.inj h)
    have hlist : (String.ofList (c :: rest.takeWhile isWordChar)).toList =
        c :: rest.takeWhile isWordChar := String.toList_ofList
    have hsplit : c :: rest = c :: rest.takeWhile isWordChar ++ rest.dropWhile isWordChar := by
      rw [List.cons_append, List.takeWhile_append_dropWhile]
    rw [wordToken]
    cases hword : Keyword.ofText? (String.ofList (c :: rest.takeWhile isWordChar)) with
    | some k =>
      refine ⟨trivial, ?_, fun _ => head?_dropWhile _ _⟩
      rw [Token.chars, text_of_ofText? hword, hlist]
      exact hsplit
    | none =>
      refine ⟨⟨⟨c, _, hlist, hstart, fun d hd => List.mem_takeWhile_imp hd⟩,
        ofText?_eq_none_iff.mp hword⟩, ?_, fun _ => head?_dropWhile _ _⟩
      rw [Token.chars, hlist]
      exact hsplit
  · split at h
    · rename_i hdigit
      obtain ⟨rfl, rfl⟩ := Prod.mk.inj (Option.some.inj h)
      obtain ⟨hnumeral, hsplit⟩ := of_splitNumeral hdigit (Prod.eta _)
      exact ⟨hnumeral, hsplit, nofun⟩
    · split at h
      · rename_i hquote
        obtain ⟨⟨body, after⟩, hbody, heq⟩ := Option.map_eq_some_iff.mp h
        obtain ⟨rfl, rfl⟩ := Prod.mk.inj heq
        obtain ⟨hproper, rfl⟩ := of_splitLiteral? hbody
        refine ⟨hproper, ?_, nofun⟩
        rw [hquote, Token.chars, List.cons_append, List.append_assoc]
        rfl
      · obtain ⟨m, hmark, heq⟩ := Option.map_eq_some_iff.mp h
        obtain ⟨rfl, rfl⟩ := Prod.mk.inj heq
        have hchar : m.char = c := by simpa using List.find?_some hmark
        refine ⟨trivial, ?_, nofun⟩
        rw [← hchar]
        rfl

/-! ## Reading all tokens -/

/-- Of two neighbours that are words or numerals the first is a keyword and the second a name. -/
def Follows (first second : Token) : Prop :=
  first.Wordy → second.Wordy → RunsInto (some first) second

theorem Space.notWord {space : List Char} (h : Space space) : NotWord (space ++ rest) := by
  intro c hc
  cases h with
  | blank h =>
    obtain rfl := Option.some.inj hc
    exact isWordChar_of_isBlank h
  | line | block =>
    obtain rfl := Option.some.inj hc
    decide

theorem Layout.notWord {gap : List Char} (h : Layout gap) (hne : gap ≠ []) : NotWord (gap ++ rest) := by
  cases h with
  | nil => exact absurd rfl hne
  | cons hspace _ =>
    rw [List.append_assoc]
    exact hspace.notWord

theorem Closing.notWord {gap : List Char} (h : Closing gap) : NotWord gap := by
  cases h with
  | layout h =>
    cases h with
    | nil => exact nofun
    | cons hspace _ => exact hspace.notWord
  | @comment gap comment h _ =>
    by_cases hne : gap = []
    · intro c hc
      rw [hne] at hc
      obtain rfl := Option.some.inj hc
      decide
    · exact h.notWord hne

theorem Token.notWord_of_not_wordy (h : ¬ token.Wordy) : NotWord (token.chars ++ rest) := by
  intro c hc
  cases token with
  | keyword | name | numeral => exact absurd trivial h
  | literal body =>
    obtain rfl := Option.some.inj hc
    decide
  | mark m =>
    obtain rfl := Option.some.inj hc
    cases m <;> decide

theorem Written.notWord {tokens : List Token} (h : Written (some token) tokens text)
    (hwordy : token.Wordy) (hfollows : ∀ next ∈ tokens.head?, Follows token next) : NotWord text := by
  cases h with
  | nil hgap => exact hgap.notWord
  | @cons _ next tokens gap text hgap hapart hproper hrest =>
    by_cases hne : gap = []
    · subst hne
      refine Token.notWord_of_not_wordy fun hnext => ?_
      exact hapart (hfollows next rfl hwordy hnext) rfl
    · exact hgap.notWord hne

/-- Every token takes one step and at least one character. -/
theorem scanFrom_of_written {before : Option Token} {tokens : List Token}
    (h : Written before tokens text) (hchain : tokens.IsChain Follows) {steps : Nat}
    (hsteps : text.length < steps) : scanFrom steps text = some tokens := by
  induction h generalizing steps with
  | nil hgap =>
    obtain ⟨steps, rfl⟩ := Nat.exists_eq_add_of_lt hsteps
    rw [scanFrom, skip_closing hgap]
  | @cons before token tokens gap text hgap hapart hproper hrest ih =>
    obtain ⟨c, run, hchars, hblank, hslash⟩ := hproper.exists_chars
    obtain ⟨hfollows, hchain⟩ := List.isChain_cons.mp hchain
    have hnext := next?_of_proper hproper hchars fun hwordy => hrest.notWord hwordy hfollows
    rw [hchars] at hsteps ⊢
    cases steps with
    | zero => exact absurd hsteps (Nat.not_lt_zero _)
    | succ steps =>
      have hlt : text.length < steps := by
        simp only [List.length_append, List.length_cons] at hsteps
        omega
      rw [scanFrom, skip_layout hgap, List.cons_append, skip_other hblank hslash]
      dsimp only
      rw [hnext]
      dsimp only
      rw [ih hchain hlt]
      rfl

theorem written_of_scanFrom {before : Option Token} {tokens : List Token} {steps : Nat}
    (h : scanFrom steps text = some tokens)
    (hbefore : (∃ k, before = some (.keyword k)) → NotWord text) : Written before tokens text := by
  induction steps generalizing before tokens text with
  | zero => cases h
  | succ steps ih =>
    rw [scanFrom] at h
    cases hskip : skip .blanks text with
    | none =>
      rw [hskip] at h
      cases h
    | some out =>
      rw [hskip] at h
      rcases of_skip hskip with ⟨rfl, hclosing⟩ | ⟨gap, c, rest, rfl, hgap, rfl⟩
      · obtain rfl := Option.some.inj h
        exact .nil hclosing
      · dsimp only at h
        cases hnext : next? c rest with
        | none =>
          rw [hnext] at h
          cases h
        | some found =>
          obtain ⟨token, after⟩ := found
          rw [hnext] at h
          obtain ⟨tail, htail, rfl⟩ := Option.map_eq_some_iff.mp h
          obtain ⟨hproper, hsplit, hkeyword⟩ := of_next? hnext
          rw [hsplit]
          refine .cons hgap ?_ hproper (ih htail ?_)
          · rintro ⟨k, name, hk, rfl⟩ rfl
            -- a name cannot start where the keyword has ended
            obtain ⟨d, run, hname, hstart, -⟩ := hproper.start
            rw [Token.chars, hname] at hsplit
            obtain ⟨rfl, -⟩ := List.cons.inj hsplit
            have hend : isWordChar c = false := hbefore ⟨k, hk⟩ c rfl
            rw [isWordChar_iff.mpr (.inl hstart)] at hend
            cases hend
          · rintro ⟨k, hk⟩
            exact hkeyword ⟨k, Option.some.inj hk⟩

/-- What is scanned is what is written. -/
theorem scan?_eq_some_iff {tokens : List Token} (hchain : tokens.IsChain Follows) :
    scan? text = some tokens ↔ Written none tokens text :=
  ⟨fun h => written_of_scanFrom h nofun, fun h => scanFrom_of_written h hchain (Nat.lt_succ_self _)⟩

end ArtifactLayout.Script
