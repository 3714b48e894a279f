import ArtifactLayout.Proofs.Script.Spelling

/-! # Malformed escapes

A literal is spelled by pieces, or it has a first escape that is none, and then it is refused for what is
wrong with this escape (`Malformed`). A backslash inside a literal never stands at its end, so that no
escape is cut off by the quote. The pieces that are read are not only those that two digits spell:
the reader of numbers takes a sign in front of a digit as well.
-/

namespace ArtifactLayout.Script
set_option autoImplicit false

/-- What follows a backslash, and why it is no escape. -/
inductive Malformed : List Char → Fault → Prop where
  | unknown {c : Char} {rest : List Char} (hletter : ∀ l : Letter, l.char ≠ c) (hx : c ≠ 'x') :
      Malformed (c :: rest) (.unknownEscape ((String.utf8EncodeChar c).headD 0))
  | short {rest : List Char} (h : (utf8Bytes rest).length < 2) :
      Malformed ('x' :: rest) .shortHexEscape
  /-- Two characters that are no digits. -/
  | pair {high low : Char} {rest : List Char} (hhigh : high.toNat < 128) (hlow : low.toNat < 128)
      (h : ∀ piece : Piece, piece.chars ≠ ['\\', 'x', high, low]) :
      Malformed ('x' :: high :: low :: rest) (.badHexEscape (String.ofList [high, low]))
  /-- One character of two bytes. -/
  | wide {c : Char} {rest : List Char} (hlow : 128 ≤ c.toNat) (hhigh : c.toNat < 2048) :
      Malformed ('x' :: c :: rest) (.badHexEscape (String.ofList [c]))
  /-- The second byte is not the last of its character. -/
  | torn {c : Char} {rest : List Char} (h : 2048 ≤ c.toNat) :
      Malformed ('x' :: c :: rest) .undecodableHexEscape
  | tornLow {high low : Char} {rest : List Char} (hhigh : high.toNat < 128) (hlow : 128 ≤ low.toNat) :
      Malformed ('x' :: high :: low :: rest) .undecodableHexEscape

/-! ## What is no escape -/

theorem simpleEscape?_of_le {b : UInt8} (h : 128 ≤ b.toNat) : simpleEscape? b = none := by
  have hall : ∀ n < 256, 128 ≤ n → simpleEscape? (UInt8.ofNat n) = none := by decide +kernel
  simpa using hall b.toNat b.toNat_lt h

theorem simpleEscape?_of_ne {c : Char} (h : c.toNat < 128) (hletter : ∀ l : Letter, l.char ≠ c) :
    simpleEscape? (UInt8.ofNat c.toNat) = none := by
  unfold simpleEscape?
  rw [ofNat_toNat_ofNat h]
  split
  · exact absurd rfl (hletter .lineFeed)
  · exact absurd rfl (hletter .carriageReturn)
  · exact absurd rfl (hletter .tab)
  · exact absurd rfl (hletter .zero)
  · exact absurd rfl (hletter .backslash)
  · exact absurd rfl (hletter .quote)
  · rfl

theorem exists_hexDigit {c : Char} (h : (Text.hexValue? c).isSome = true) :
    ∃ d : HexDigit, d.char = c := by
  have hrange := isHexDigit_iff.mp h
  have hall : ∀ n < 103, (48 ≤ n ∧ n ≤ 57 ∨ 97 ≤ n ∧ n ≤ 102 ∨ 65 ≤ n ∧ n ≤ 70) →
      ∃ value : Fin 16, ∃ upper : Bool, HexDigit.char ⟨value, upper⟩ = Char.ofNat n := by
    decide
  obtain ⟨value, upper, hd⟩ := hall c.toNat (by omega) hrange
  exact ⟨⟨value, upper⟩, hd.trans (Char.ofNat_toNat c)⟩

theorem pairValue?_eq_none {high low : Char} (h : ∀ piece : Piece, piece.chars ≠ ['\\', 'x', high, low]) :
    pairValue? [high, low] = none := by
  cases hlow : Text.hexValue? low with
  | none =>
    unfold pairValue?
    split <;> simp_all
  | some l =>
    obtain ⟨d, rfl⟩ := exists_hexDigit (by rw [hlow]; rfl)
    have hsign : high ≠ '+' := by
      rintro rfl
      exact h (.signed d) rfl
    have hhigh : Text.hexValue? high = none := by
      rw [← Option.not_isSome_iff_eq_none]
      intro hsome
      obtain ⟨e, rfl⟩ := exists_hexDigit hsome
      exact h (.hex e d) rfl
    rw [pairValue?, hhigh]
    · rfl
    · exact hsign

/-! ## Characters of several bytes -/

theorem utf8EncodeChar_of_wide {c : Char} (hlow : 128 ≤ c.toNat) (hhigh : c.toNat < 2048) :
    String.utf8EncodeChar c =
      [UInt8.ofNat (c.toNat / 64 + 192), UInt8.ofNat (c.toNat % 64 + 128)] := by
  have hsmall : ¬ c.toNat ≤ 127 := by omega
  have hwide : c.toNat ≤ 2047 := by omega
  have hlead : c.toNat / 64 % 32 = c.toNat / 64 := Nat.mod_eq_of_lt (by omega)
  change (if c.toNat ≤ 127 then _ else if c.toNat ≤ 2047 then _ else _) = _
  rw [if_neg hsmall, if_pos hwide]
  simp only [Char.toNat_val, hlead]

/-- Behind the first of three bytes or more there stands another one of the same character. -/
theorem utf8EncodeChar_of_long {c : Char} (h : 2048 ≤ c.toNat) :
    ∃ lead next more, String.utf8EncodeChar c = lead :: next :: more ∧ 224 ≤ lead.toNat := by
  have hsmall : ¬ c.toNat ≤ 127 := by omega
  have hwide : ¬ c.toNat ≤ 2047 := by omega
  change ∃ lead next more, (if c.toNat ≤ 127 then _ else if c.toNat ≤ 2047 then _ else _) = _ ∧ _
  rw [if_neg hsmall, if_neg hwide]
  split
  · refine ⟨_, _, _, rfl, ?_⟩
    simp [UInt8.toNat_ofNat']
    omega
  · refine ⟨_, _, _, rfl, ?_⟩
    simp [UInt8.toNat_ofNat']
    omega

theorem pairText?_of_wide {c : Char} (hlow : 128 ≤ c.toNat) (hhigh : c.toNat < 2048) :
    pairText? (UInt8.ofNat (c.toNat / 64 + 192)) (UInt8.ofNat (c.toNat % 64 + 128)) = some [c] := by
  have hlead : (UInt8.ofNat (c.toNat / 64 + 192)).toNat = c.toNat / 64 + 192 :=
    UInt8.toNat_ofNat_of_lt' (by simp [UInt8.size]; omega)
  have hnext : (UInt8.ofNat (c.toNat % 64 + 128)).toNat = c.toNat % 64 + 128 :=
    UInt8.toNat_ofNat_of_lt' (by simp [UInt8.size]; omega)
  unfold pairText?
  simp only [UInt8.lt_iff_toNat_lt, UInt8.le_iff_toNat_le, hlead, hnext]
  have h128 : (0x80 : UInt8).toNat = 128 := rfl
  have h192 : (0xc0 : UInt8).toNat = 192 := rfl
  have h194 : (0xc2 : UInt8).toNat = 194 := rfl
  have h224 : (0xe0 : UInt8).toNat = 224 := rfl
  rw [h128, h192, h194, h224, if_neg (by omega), if_pos (by omega)]
  have hvalue : 64 * (c.toNat / 64 + 192 - 0xc0) + (c.toNat % 64 + 128 - 0x80) = c.toNat := by omega
  rw [hvalue, Char.ofNat_toNat]

theorem pairText?_of_torn {high low : UInt8}
    (h : 224 ≤ high.toNat ∨ high.toNat < 128 ∧ 128 ≤ low.toNat) : pairText? high low = none := by
  unfold pairText?
  simp only [UInt8.lt_iff_toNat_lt, UInt8.le_iff_toNat_le]
  have h128 : (0x80 : UInt8).toNat = 128 := rfl
  have h224 : (0xe0 : UInt8).toNat = 224 := rfl
  rw [h128, h224]
  rcases h with h | ⟨hhigh, hlow⟩
  · rw [if_neg (by omega), if_neg (by omega)]
  · rw [if_pos hhigh, if_neg (by omega)]

/-! ## Reading -/

theorem simpleEscape?_of_malformed {c : Char} (hletter : ∀ l : Letter, l.char ≠ c) (hx : c ≠ 'x') :
    ∃ b more, String.utf8EncodeChar c = b :: more ∧ b ≠ 120 ∧ simpleEscape? b = none := by
  by_cases hc : c.toNat < 128
  · refine ⟨_, [], utf8EncodeChar_of_lt hc, fun hb => hx ?_, simpleEscape?_of_ne hc hletter⟩
    rw [← ofNat_toNat_ofNat hc, hb]
    rfl
  · obtain ⟨b, more, hbytes⟩ := List.exists_cons_of_ne_nil (String.utf8EncodeChar_ne_nil (c := c))
    have hb : 128 ≤ b.toNat := by
      apply le_of_mem_utf8EncodeChar (Nat.not_lt.mp hc)
      rw [hbytes]
      exact List.mem_cons_self
    refine ⟨b, more, hbytes, ?_, simpleEscape?_of_le hb⟩
    rintro rfl
    exact absurd hb (by decide)

theorem unescape_of_malformed {tail : List Char} {fault : Fault} (h : Malformed tail fault) :
    unescape (92 :: utf8Bytes tail) = .error fault := by
  have hx : ∀ rest, utf8Bytes ('x' :: rest) = 120 :: utf8Bytes rest := fun rest => rfl
  cases h with
  | @unknown c rest hletter hc =>
    obtain ⟨b, more, hbytes, hb, hnone⟩ := simpleEscape?_of_malformed hletter hc
    rw [utf8Bytes_cons, hbytes, List.cons_append, unescape_of_ne_hex _ hb, hnone]
    rfl
  | short h => rw [hx, unescape_short h]
  | pair hhigh hlow h =>
    simp only [hx, utf8Bytes_cons, utf8EncodeChar_of_lt hhigh, utf8EncodeChar_of_lt hlow,
      List.cons_append, List.nil_append, unescape_hex, hexEscape, pairText?_of_lt hhigh hlow,
      pairValue?_eq_none h]
  | wide hlow hhigh =>
    simp only [hx, utf8Bytes_cons, utf8EncodeChar_of_wide hlow hhigh, List.cons_append,
      List.nil_append, unescape_hex, hexEscape, pairText?_of_wide hlow hhigh, pairValue?]
  | torn h =>
    obtain ⟨lead, next, more, hbytes, hlead⟩ := utf8EncodeChar_of_long h
    simp only [hx, utf8Bytes_cons, hbytes, List.cons_append, unescape_hex, hexEscape,
      pairText?_of_torn (.inl hlead)]
  | @tornLow high low rest hhigh hlow =>
    obtain ⟨b, more, hbytes⟩ := List.exists_cons_of_ne_nil (String.utf8EncodeChar_ne_nil (c := low))
    have hb : 128 ≤ b.toNat := by
      apply le_of_mem_utf8EncodeChar hlow
      rw [hbytes]
      exact List.mem_cons_self
    have hfirst : (UInt8.ofNat high.toNat).toNat < 128 := by
      rw [UInt8.toNat_ofNat_of_lt' (by simp [UInt8.size]; omega)]
      exact hhigh
    simp only [hx, utf8Bytes_cons, utf8EncodeChar_of_lt hhigh, hbytes, List.cons_append,
      List.nil_append, unescape_hex, hexEscape, pairText?_of_torn (.inr ⟨hfirst, hb⟩)]

theorem readLiteral_of_malformed (pieces : List Piece) {tail : List Char} {fault : Fault}
    (h : Malformed tail fault) : readLiteral (spelling pieces ++ '\\' :: tail) = .error fault := by
  have hslash : utf8Bytes ('\\' :: tail) = 92 :: utf8Bytes tail := rfl
  rw [readLiteral, utf8Bytes_append, unescape_spelling, hslash, unescape_of_malformed h]
  rfl

/-! ## Taking a literal apart -/

theorem IsBody.of_cons {c : Char} {rest : List Char} (h : IsBody (c :: rest)) (hc : c ≠ '\\') :
    IsBody rest := by
  cases h with
  | escaped => exact absurd rfl hc
  | plain _ _ h => exact h

theorem ne_backslash_of_chars {piece : Piece} {high low : Char}
    (h : piece.chars = ['\\', 'x', high, low]) : high ≠ '\\' ∧ low ≠ '\\' := by
  cases piece with
  | raw | letter => simp [Piece.chars] at h
  | hex d e =>
    obtain ⟨rfl, rfl⟩ : d.char = high ∧ e.char = low := by simpa [Piece.chars] using h
    exact ⟨d.char_ne.2.2, e.char_ne.2.2⟩
  | signed d =>
    obtain ⟨rfl, rfl⟩ : '+' = high ∧ d.char = low := by simpa [Piece.chars] using h
    exact ⟨by decide, d.char_ne.2.2⟩

/-- A hexadecimal escape is a piece, or it is malformed. -/
theorem hex_piece_or_malformed {rest : List Char} (h : IsBody rest) :
    (∃ (piece : Piece) (after : List Char),
      '\\' :: 'x' :: rest = piece.chars ++ after ∧ IsBody after) ∨
    ∃ fault, Malformed ('x' :: rest) fault := by
  match rest, h with
  | [], _ => exact .inr ⟨_, .short (by decide)⟩
  | [c], _ =>
    by_cases hc : c.toNat < 128
    · exact .inr ⟨_, .short (by simp [utf8Bytes, utf8EncodeChar_of_lt hc])⟩
    · by_cases hwide : c.toNat < 2048
      · exact .inr ⟨_, .wide (Nat.not_lt.mp hc) hwide⟩
      · exact .inr ⟨_, .torn (Nat.not_lt.mp hwide)⟩
  | high :: low :: after, h =>
    by_cases hhigh : high.toNat < 128
    · by_cases hlow : low.toNat < 128
      · by_cases hpiece : ∃ piece : Piece, piece.chars = ['\\', 'x', high, low]
        · obtain ⟨piece, hchars⟩ := hpiece
          obtain ⟨hne, hne'⟩ := ne_backslash_of_chars hchars
          exact .inl ⟨piece, after, by rw [hchars]; rfl, (h.of_cons hne).of_cons hne'⟩
        · exact .inr ⟨_, .pair hhigh hlow (not_exists.mp hpiece)⟩
      · exact .inr ⟨_, .tornLow hhigh (Nat.not_lt.mp hlow)⟩
    · by_cases hwide : high.toNat < 2048
      · exact .inr ⟨_, .wide (Nat.not_lt.mp hhigh) hwide⟩
      · exact .inr ⟨_, .torn (Nat.not_lt.mp hwide)⟩

/-- What stands in a literal starts with a piece, or with a malformed escape. -/
theorem piece_or_malformed {body : List Char} (h : IsBody body) (hne : body ≠ []) :
    (∃ (piece : Piece) (rest : List Char), body = piece.chars ++ rest ∧ IsBody rest) ∨
    ∃ tail fault, body = '\\' :: tail ∧ Malformed tail fault := by
  cases h with
  | nil => exact absurd rfl hne
  | plain hquote hslash h => exact .inl ⟨.raw _ hquote hslash, _, rfl, h⟩
  | escaped c h =>
    by_cases hletter : ∃ l : Letter, l.char = c
    · obtain ⟨l, rfl⟩ := hletter
      exact .inl ⟨.letter l, _, rfl, h⟩
    · by_cases hx : c = 'x'
      · subst hx
        rcases hex_piece_or_malformed h with hpiece | ⟨fault, hfault⟩
        · exact .inl hpiece
        · exact .inr ⟨_, fault, rfl, hfault⟩
      · exact .inr ⟨_, _, rfl, .unknown (not_exists.mp hletter) hx⟩

theorem Piece.length_chars_pos (piece : Piece) : 0 < piece.chars.length := by
  cases piece <;> exact Nat.succ_pos _

/-- A literal is spelled by pieces, or by pieces up to its first malformed escape. -/
theorem spelled_or_malformed {body : List Char} (h : IsBody body) :
    (∃ pieces, body = spelling pieces) ∨
    ∃ pieces tail fault, body = spelling pieces ++ '\\' :: tail ∧ Malformed tail fault := by
  induction hn : body.length using Nat.strong_induction_on generalizing body with
  | _ n ih =>
    subst hn
    by_cases hne : body = []
    · exact .inl ⟨[], hne⟩
    rcases piece_or_malformed h hne with ⟨piece, rest, rfl, hrest⟩ | ⟨tail, fault, rfl, hfault⟩
    · have hlt : rest.length < (piece.chars ++ rest).length := by
        have hpos := piece.length_chars_pos
        simp
        omega
      rcases ih rest.length hlt hrest rfl with ⟨pieces, rfl⟩ | ⟨pieces, tail, fault, rfl, hfault⟩
      · exact .inl ⟨piece :: pieces, rfl⟩
      · refine .inr ⟨piece :: pieces, tail, fault, ?_, hfault⟩
        rw [← List.append_assoc]
        rfl
    · exact .inr ⟨[], tail, fault, rfl, hfault⟩

theorem message_unknownEscape (b : UInt8) : (Fault.unknownEscape b).message =
    "parse error: " ++ ("unknown escape \\" ++ (Char.ofNat b.toNat).toString) := by
  rw [← String.append_assoc]
  rfl

theorem message_badHexEscape (digits : String) : (Fault.badHexEscape digits).message =
    "parse error: " ++ ("invalid \\x escape: " ++ digits) := by
  rw [← String.append_assoc]
  rfl

theorem Malformed.fault_eq {tail : List Char} {fault : Fault} (h : Malformed tail fault) :
    fault ≠ .danglingEscape ∧ ∃ cause, fault.message = "parse error: " ++ cause := by
  cases h with
  | unknown => exact ⟨Fault.noConfusion, _, message_unknownEscape _⟩
  | pair | wide => exact ⟨Fault.noConfusion, _, message_badHexEscape _⟩
  | short => exact ⟨Fault.noConfusion, "\\x needs two hex digits", rfl⟩
  | torn | tornLow => exact ⟨Fault.noConfusion, "invalid \\x escape", rfl⟩

/-- A literal that is read as a token is decoded up to the token's own quotes. It has the bytes of the
pieces that spell it; if none do, it is refused for its first malformed escape, and never for an escape
that it cuts off. -/
theorem literal_outcome {text body rest : List Char}
    (h : next? '"' text = some (.literal body, rest)) :
    let literal := (Token.literal body).chars
    '"' :: text = literal ++ rest ∧
    (∀ bytes, readQuoted? literal = some (.ok bytes) ↔
      ∃ pieces, body = spelling pieces ∧ bytes = bytesOf pieces) ∧
    (∀ fault, readQuoted? literal = some (.error fault) ↔
      ∃ pieces tail, body = spelling pieces ++ '\\' :: tail ∧ Malformed tail fault) ∧
    ((¬ ∃ pieces, body = spelling pieces) → ∃ fault cause,
      readQuoted? literal = some (.error fault) ∧ fault ≠ .danglingEscape ∧
      fault.message = "parse error: " ++ cause) := by
  obtain ⟨hbody, htext, -⟩ := of_next? h
  dsimp only
  rw [readQuoted?_literal]
  refine ⟨htext, fun bytes => ?_, fun fault => ?_, fun hnone => ?_⟩
  · constructor
    · intro hread
      rcases spelled_or_malformed hbody with ⟨pieces, rfl⟩ | ⟨pieces, tail, fault, rfl, hfault⟩
      · rw [readLiteral_spelling] at hread
        cases hread
        exact ⟨pieces, rfl, rfl⟩
      · rw [readLiteral_of_malformed pieces hfault] at hread
        cases hread
    · rintro ⟨pieces, rfl, rfl⟩
      rw [readLiteral_spelling]
  · constructor
    · intro hread
      rcases spelled_or_malformed hbody with ⟨pieces, rfl⟩ | ⟨pieces, tail, fault, rfl, hfault⟩
      · rw [readLiteral_spelling] at hread
        cases hread
      · rw [readLiteral_of_malformed pieces hfault] at hread
        cases hread
        exact ⟨pieces, tail, rfl, hfault⟩
    · rintro ⟨pieces, tail, rfl, hfault⟩
      rw [readLiteral_of_malformed pieces hfault]
  · rcases spelled_or_malformed hbody with hpieces | ⟨pieces, tail, fault, rfl, hfault⟩
    · exact absurd hpieces hnone
    · obtain ⟨hdangling, cause, hmessage⟩ := hfault.fault_eq
      exact ⟨fault, cause, by rw [readLiteral_of_malformed pieces hfault], hdangling, hmessage⟩

/-- The hypothesis can be met, by a literal with an escaped quote that is refused for its last escape. -/
theorem literal_outcome_sample :
    let text := ['é', '\\', '"', '\\', 'q', '"', ';']
    let body := ['é', '\\', '"', '\\', 'q']
    next? '"' text = some (.literal body, [';']) ∧
    readQuoted? (Token.literal body).chars = some (.error (.unknownEscape 113)) := by
  have hnext : next? '"' ['é', '\\', '"', '\\', 'q', '"', ';'] =
      some (.literal ['é', '\\', '"', '\\', 'q'], [';']) := by
    decide +kernel
  obtain ⟨-, -, hrefused, -⟩ := literal_outcome hnext
  have hmalformed : Malformed ['q'] (.unknownEscape 113) :=
    .unknown (fun l => by cases l <;> decide) (by decide)
  refine ⟨hnext, (hrefused _).mpr ⟨[.raw 'é' (by decide) (by decide), .letter .quote], ['q'], ?_, ?_⟩⟩
  · rfl
  · exact hmalformed

/-- A sign in front of a digit is read as part of the number, although two digits would have to stand
there. -/
theorem sign_read_as_digit :
    next? '"' ['\\', 'x', '+', 'f', '"'] = some (.literal ['\\', 'x', '+', 'f'], []) ∧
    readQuoted? ['"', '\\', 'x', '+', 'f', '"'] = some (.ok [15]) ∧
    ¬ ∃ pieces, (∀ piece ∈ pieces, piece.Regular) ∧ ['\\', 'x', '+', 'f'] = spelling pieces := by
  refine ⟨by decide +kernel, by decide +kernel, ?_⟩
  rintro ⟨pieces, hregular, hspelling⟩
  cases pieces with
  | nil => cases hspelling
  | cons piece pieces =>
    cases piece with
    | raw c hquote hslash => exact hslash (List.cons.inj hspelling).1.symm
    | letter l =>
      have hletter : 'x' = l.char := (List.cons.inj (List.cons.inj hspelling).2).1
      cases l <;> exact absurd hletter (by decide)
    | hex high low =>
      have hdigit := (List.cons.inj (List.cons.inj (List.cons.inj hspelling).2).2).1
      exact high.char_ne.1 hdigit.symm
    | signed low => exact hregular _ List.mem_cons_self

end ArtifactLayout.Script
