import ArtifactLayout.Proofs.Script.Scan

/-! # Reading scripts

A script is read from its own tokens and from no others. With the scanner that makes a text readable
exactly if a script is written down in it, and then that script is what is read.
-/

namespace ArtifactLayout.Script
set_option autoImplicit false

variable {depth : Nat} {ts rest : List Token} {item : Item} {items : List Item}

/-! ## Neighbours -/

/-- Tokens of which no two run into each other, nor the last one into what may follow. -/
structure Sealed (ts : List Token) : Prop where
  chain : ts.IsChain Follows
  last : ∀ token ∈ ts.getLast?, ¬ token.Wordy

namespace Sealed

theorem nil : Sealed [] := ⟨.nil, nofun⟩

theorem append {us : List Token} (h : Sealed ts) (h' : Sealed us) : Sealed (ts ++ us) := by
  constructor
  · refine List.isChain_append.mpr ⟨h.chain, h'.chain, fun token htoken next _ hwordy => ?_⟩
    exact absurd hwordy (h.last token htoken)
  · intro token htoken
    rw [List.getLast?_append, Option.mem_def, Option.or_eq_some_iff] at htoken
    rcases htoken with htoken | ⟨-, htoken⟩
    · exact h'.last token htoken
    · exact h.last token htoken

/-- One more token in front, which does not run into the first. -/
theorem cons {token next : Token} (hfollows : Follows token next) (h : Sealed (next :: ts)) :
    Sealed (token :: next :: ts) :=
  ⟨.cons_cons hfollows h.chain, fun last hlast => h.last last (by simpa using hlast)⟩

theorem mark (m : Mark) (h : Sealed ts) : Sealed (.mark m :: ts) := by
  cases ts with
  | nil => exact ⟨.singleton _, fun token htoken => by obtain rfl := Option.some.inj htoken; exact id⟩
  | cons next ts => exact h.cons nofun

theorem before_mark (token : Token) {m : Mark} (h : Sealed (.mark m :: ts)) :
    Sealed (token :: .mark m :: ts) :=
  h.cons fun _ hmark => hmark.elim

/-- A name in front of a mark. -/
theorem names (name : Option String) {m : Mark} (h : Sealed (.mark m :: ts)) :
    Sealed (nameTokens name ++ .mark m :: ts) := by
  cases name with
  | none => exact h
  | some name => exact h.before_mark (.name name)

/-- A keyword and a name in front of a mark. -/
theorem keyword_names (k : Keyword) (name : Option String) {m : Mark} (h : Sealed (.mark m :: ts)) :
    Sealed (.keyword k :: (nameTokens name ++ .mark m :: ts)) := by
  cases name with
  | none => exact h.before_mark _
  | some name => exact (h.before_mark (.name name)).cons fun _ _ => ⟨k, name, rfl, rfl⟩

end Sealed

theorem sealed_listTokens (names : List String) (h : Sealed ts) :
    Sealed (listTokens names ++ .mark .closeParen :: ts) := by
  cases names with
  | nil => exact h.mark _
  | cons name names =>
    have hrest : ∃ m us, names.flatMap (fun other => [.mark .comma, .name other]) ++
        .mark .closeParen :: ts = .mark m :: us ∧ Sealed (.mark m :: us) := by
      induction names with
      | nil => exact ⟨_, _, rfl, h.mark _⟩
      | cons other names ih =>
        obtain ⟨m, us, heq, hsealed⟩ := ih
        rw [List.flatMap_cons, List.append_assoc, heq]
        exact ⟨_, _, rfl, (hsealed.before_mark (.name other)).mark .comma⟩
    obtain ⟨m, us, heq, hsealed⟩ := hrest
    rw [listTokens, List.cons_append, heq]
    exact hsealed.before_mark _

theorem sealed_sourceTokens (source : Option Source) :
    ∃ m us, sourceTokens source ++ [.mark .semicolon] = .mark m :: us ∧ Sealed (.mark m :: us) := by
  have hsemicolon : Sealed [.mark .semicolon] := Sealed.nil.mark _
  cases source with
  | none => exact ⟨_, _, rfl, hsemicolon⟩
  | some source =>
    refine ⟨.equals, source.tokens ++ [.mark .semicolon], rfl, Sealed.mark _ ?_⟩
    cases source with
    | literal body => exact hsemicolon.before_mark _
    | numeral text => exact hsemicolon.before_mark _
    | field name => exact hsemicolon.before_mark _
    | call function arguments =>
      have harguments := sealed_listTokens arguments hsemicolon
      rw [Source.tokens, List.cons_append, List.cons_append, List.append_assoc]
      exact (harguments.mark .openParen).before_mark _

theorem sealed_endingTokens (name : Option String) (source : Option Source) :
    Sealed (endingTokens name source) := by
  obtain ⟨m, us, heq, hsealed⟩ := sealed_sourceTokens source
  rw [endingTokens, heq]
  exact hsealed.names name

mutual

theorem sealed_item : ∀ item : Item, Sealed item.tokens
  | .block size name source =>
    ((((sealed_endingTokens name source).mark .greater).before_mark (.numeral size)).mark
      .less).before_mark (.keyword .block)
  | .ranged low high name source =>
    ((((((sealed_endingTokens name source).mark .greater).before_mark (.numeral high)).mark
      .comma).before_mark (.numeral low)).mark .less).before_mark (.keyword .varblock)
  | .bitfield width name source =>
    ((((sealed_endingTokens name source).mark .greater).before_mark (.numeral width)).mark
      .less).before_mark (.keyword .bitfield)
  | .auto name source => by
    obtain ⟨m, us, heq, hsealed⟩ := sealed_sourceTokens (some source)
    rw [Item.tokens, endingTokens, heq]
    exact hsealed.keyword_names .auto name
  | .container form name body =>
    (((sealed_items body).append (Sealed.nil.mark .closeBrace)).mark .openBrace).keyword_names
      form.keyword name
  | .copies template low none =>
    ((((Sealed.nil.mark .semicolon).mark .greater).before_mark (.numeral low)).mark .less).before_mark
      (.name template)
  | .copies template low (some high) =>
    ((((((Sealed.nil.mark .semicolon).mark .greater).before_mark (.numeral high)).mark
      .comma).before_mark (.numeral low)).mark .less).before_mark (.name template)

theorem sealed_items : ∀ items : List Item, Sealed (itemsTokens items)
  | [] => .nil
  | item :: rest => (sealed_item item).append (sealed_items rest)

end

theorem sealed_entries (entries : List Entry) : Sealed (entriesTokens entries) := by
  induction entries with
  | nil => exact .nil
  | cons entry rest ih =>
    refine Sealed.append ?_ ih
    cases entry with
    | item item => exact sealed_item item
    | template name body =>
      have hbody := (sealed_items body).append (Sealed.nil.mark .closeBrace)
      exact (hbody.mark .openBrace).keyword_names .template (some name)

/-! ## Reading a script from its own tokens -/

theorem name?_nameTokens (name : Option String) (m : Mark) (rest : List Token) :
    name? (nameTokens name ++ .mark m :: rest) = (name, .mark m :: rest) := by
  cases name <;> rfl

theorem moreNames?_of_tokens (names : List String) (rest : List Token) :
    moreNames? (names.flatMap (fun other => [.mark .comma, .name other]) ++
      .mark .closeParen :: rest) = some (names, rest) := by
  induction names with
  | nil => rfl
  | cons name names ih =>
    rw [List.flatMap_cons, List.append_assoc]
    exact congrArg (Option.map _) ih

theorem arguments?_listTokens (names : List String) (rest : List Token) :
    arguments? (listTokens names ++ .mark .closeParen :: rest) = some (names, rest) := by
  cases names with
  | nil => rfl
  | cons name names => exact congrArg (Option.map _) (moreNames?_of_tokens names rest)

theorem source?_tokens (source : Source) (rest : List Token) :
    source? (source.tokens ++ .mark .semicolon :: rest) = some (source, .mark .semicolon :: rest) := by
  cases source with
  | literal | numeral | field => rfl
  | call function arguments =>
    have harguments := arguments?_listTokens arguments (.mark .semicolon :: rest)
    rw [Source.tokens, List.cons_append, List.cons_append, List.append_assoc]
    exact congrArg (Option.map _) harguments

theorem ending?_endingTokens (name : Option String) (source : Option Source) (rest : List Token) :
    ending? (endingTokens name source ++ rest) = some ((name, source), rest) := by
  rw [endingTokens, List.append_assoc, List.append_assoc]
  cases source with
  | none =>
    rw [ending?, sourceTokens, Option.elim_none, List.nil_append, List.singleton_append,
      name?_nameTokens]
  | some source =>
    rw [ending?, sourceTokens, Option.elim_some, List.cons_append, name?_nameTokens]
    dsimp only
    rw [List.singleton_append, source?_tokens]

theorem item?_mark (m : Mark) : item? depth (.mark m :: ts) = none := by
  cases depth <;> rfl

theorem body?_of_item? (h : item? depth ts = some (item, rest)) :
    body? (depth + 1) ts = (body? depth rest).map fun (items, rest) => (item :: items, rest) := by
  rw [body?, h]
  rintro us rfl
  rw [item?_mark] at h
  cases h

theorem entries?_of_item? (h : item? depth ts = some (item, rest)) :
    entries? (depth + 1) ts = (entries? depth rest).map (.item item :: ·) := by
  rw [entries?, h]
  · rintro rfl
    cases depth <;> cases h
  · rintro name us rfl
    cases depth <;> cases h

theorem length_tokens_pos (item : Item) : 0 < item.tokens.length := by
  cases item with
  | copies template low high => cases high <;> exact Nat.succ_pos _
  | _ => exact Nat.succ_pos _

mutual

/-- Two levels of depth for each token are enough: one for an item and one for its place in a body. -/
theorem item?_tokens : ∀ (item : Item) {depth : Nat} (rest : List Token),
    2 * item.tokens.length ≤ depth → item? depth (item.tokens ++ rest) = some (item, rest)
  | .block size name source, depth + 1, rest, _ =>
    congrArg (Option.map _) (ending?_endingTokens name source rest)
  | .ranged low high name source, depth + 1, rest, _ =>
    congrArg (Option.map _) (ending?_endingTokens name source rest)
  | .bitfield width name source, depth + 1, rest, _ =>
    congrArg (Option.map _) (ending?_endingTokens name source rest)
  | .auto name source, depth + 1, rest, _ => by
    rw [Item.tokens, List.cons_append, item?, ending?_endingTokens]
  | .container form name body, depth, rest, hdepth => by
    rw [Item.tokens, List.length_cons, List.length_append, List.length_cons, List.length_append,
      List.length_singleton] at hdepth
    obtain ⟨depth, rfl⟩ : ∃ d, depth = d + 2 := ⟨depth - 2, by omega⟩
    have hbody := body?_tokens body rest (show 2 * (itemsTokens body).length + 1 ≤ depth by omega)
    have hcontainer : container? form (depth + 1)
        (nameTokens name ++ .mark .openBrace :: (itemsTokens body ++ .mark .closeBrace :: rest)) =
          some (.container form name body, rest) := by
      rw [container?, name?_nameTokens]
      dsimp only
      rw [hbody]
      rfl
    rw [Item.tokens, List.cons_append, List.append_assoc, List.cons_append, List.append_assoc]
    cases form <;> exact hcontainer
  | .copies template low none, depth + 1, rest, _ => rfl
  | .copies template low (some high), depth + 1, rest, _ => rfl

theorem body?_tokens : ∀ (items : List Item) {depth : Nat} (rest : List Token),
    2 * (itemsTokens items).length + 1 ≤ depth →
      body? depth (itemsTokens items ++ .mark .closeBrace :: rest) = some (items, rest)
  | [], depth + 1, rest, _ => rfl
  | item :: items, depth + 1, rest, hdepth => by
    have hpos := length_tokens_pos item
    rw [itemsTokens, List.length_append] at hdepth
    rw [itemsTokens, List.append_assoc]
    rw [body?_of_item? (item?_tokens item _ (by omega)), body?_tokens items rest (by omega)]
    rfl

end

theorem entries?_tokens (entries : List Entry) {depth : Nat}
    (hdepth : 2 * (entriesTokens entries).length + 1 ≤ depth) :
    entries? depth (entriesTokens entries) = some entries := by
  induction entries generalizing depth with
  | nil =>
    obtain ⟨depth, rfl⟩ := Nat.exists_eq_add_of_lt hdepth
    rfl
  | cons entry rest ih =>
    rw [entriesTokens, List.length_append] at hdepth
    cases entry with
    | item item =>
      have hpos := length_tokens_pos item
      rw [Entry.tokens] at hdepth
      obtain ⟨depth, rfl⟩ : ∃ d, depth = d + 1 := ⟨depth - 1, by omega⟩
      rw [entriesTokens, Entry.tokens, entries?_of_item? (item?_tokens item _ (by omega)),
        ih (by omega)]
      rfl
    | template name body =>
      rw [Entry.tokens, List.length_cons, List.length_cons, List.length_cons, List.length_append,
        List.length_singleton] at hdepth
      obtain ⟨depth, rfl⟩ : ∃ d, depth = d + 1 := ⟨depth - 1, by omega⟩
      have hbody := body?_tokens body (entriesTokens rest)
        (show 2 * (itemsTokens body).length + 1 ≤ depth by omega)
      rw [entriesTokens, Entry.tokens]
      simp only [List.cons_append, List.append_assoc, List.nil_append]
      rw [entries?, hbody]
      dsimp only
      rw [ih (by omega)]
      rfl

/-! ## What is read was there -/

theorem of_name? {name : Option String} (h : name? ts = (name, rest)) :
    ts = nameTokens name ++ rest := by
  unfold name? at h
  split at h
  · obtain ⟨rfl, rfl⟩ := Prod.mk.inj h
    rfl
  · obtain ⟨rfl, rfl⟩ := Prod.mk.inj h
    rfl

theorem of_moreNames? {names : List String} (h : moreNames? ts = some (names, rest)) :
    ts = names.flatMap (fun other => [.mark .comma, .name other]) ++ .mark .closeParen :: rest := by
  fun_induction moreNames? ts generalizing names with
  | case1 after =>
    obtain ⟨rfl, rfl⟩ := Prod.mk.inj (Option.some.inj h)
    rfl
  | case2 name after ih =>
    obtain ⟨⟨others, _⟩, hothers, heq⟩ := Option.map_eq_some_iff.mp h
    obtain ⟨rfl, rfl⟩ := Prod.mk.inj heq
    rw [ih hothers]
    rfl
  | case3 => cases h

theorem of_arguments? {names : List String} (h : arguments? ts = some (names, rest)) :
    ts = listTokens names ++ .mark .closeParen :: rest := by
  unfold arguments? at h
  split at h
  · obtain ⟨rfl, rfl⟩ := Prod.mk.inj (Option.some.inj h)
    rfl
  · obtain ⟨⟨others, _⟩, hothers, heq⟩ := Option.map_eq_some_iff.mp h
    obtain ⟨rfl, rfl⟩ := Prod.mk.inj heq
    rw [of_moreNames? hothers]
    rfl
  · cases h

theorem of_source? {source : Source} (h : source? ts = some (source, rest)) :
    ts = source.tokens ++ rest := by
  unfold source? at h
  split at h
  · obtain ⟨rfl, rfl⟩ := Prod.mk.inj (Option.some.inj h)
    rfl
  · obtain ⟨rfl, rfl⟩ := Prod.mk.inj (Option.some.inj h)
    rfl
  · obtain ⟨⟨arguments, _⟩, harguments, heq⟩ := Option.map_eq_some_iff.mp h
    obtain ⟨rfl, rfl⟩ := Prod.mk.inj heq
    rw [of_arguments? harguments, Source.tokens, List.cons_append, List.cons_append,
      List.append_assoc]
    rfl
  · obtain ⟨rfl, rfl⟩ := Prod.mk.inj (Option.some.inj h)
    rfl
  · cases h

theorem of_ending? {name : Option String} {source : Option Source}
    (h : ending? ts = some ((name, source), rest)) : ts = endingTokens name source ++ rest := by
  unfold ending? at h
  split at h
  · rename_i hname
    obtain ⟨hends, rfl⟩ := Prod.mk.inj (Option.some.inj h)
    obtain ⟨rfl, rfl⟩ := Prod.mk.inj hends
    rw [of_name? hname, endingTokens, List.append_assoc]
    rfl
  · rename_i hname
    split at h
    · rename_i hsource
      obtain ⟨hends, rfl⟩ := Prod.mk.inj (Option.some.inj h)
      obtain ⟨rfl, rfl⟩ := Prod.mk.inj hends
      rw [of_name? hname, of_source? hsource, endingTokens, sourceTokens, Option.elim_some,
        List.append_assoc, List.cons_append, List.cons_append, List.append_assoc]
      rfl
    · cases h
  · cases h

/-- The tokens of a declaration that has been read up to its ending. -/
theorem of_map_ending? {wrap : Option String → Option Source → Item}
    (h : ((ending? ts).map fun ((name, source), rest) => (wrap name source, rest)) =
      some (item, rest)) :
    ∃ name source, item = wrap name source ∧ ts = endingTokens name source ++ rest := by
  obtain ⟨⟨⟨name, source⟩, after⟩, hending, heq⟩ := Option.map_eq_some_iff.mp h
  obtain ⟨rfl, rfl⟩ := Prod.mk.inj heq
  exact ⟨name, source, rfl, of_ending? hending⟩

mutual

theorem of_item? : ∀ {depth : Nat} {ts rest : List Token} {item : Item},
    item? depth ts = some (item, rest) → ts = item.tokens ++ rest
  | depth + 1, ts, rest, item, h => by
    unfold item? at h
    -- the cases are the keywords in turn, then the two forms of copies
    split at h
    · obtain ⟨name, source, rfl, hending⟩ := of_map_ending? h
      rw [hending]
      rfl
    · obtain ⟨name, source, rfl, hending⟩ := of_map_ending? h
      rw [hending]
      rfl
    · obtain ⟨name, source, rfl, hending⟩ := of_map_ending? h
      rw [hending]
      rfl
    · split at h
      · rename_i hending
        obtain ⟨rfl, rfl⟩ := Prod.mk.inj (Option.some.inj h)
        rw [of_ending? hending]
        rfl
      · cases h
    · exact of_container? h
    · exact of_container? h
    · exact of_container? h
    · obtain ⟨rfl, rfl⟩ := Prod.mk.inj (Option.some.inj h)
      rfl
    · obtain ⟨rfl, rfl⟩ := Prod.mk.inj (Option.some.inj h)
      rfl
    · cases h

theorem of_container? : ∀ {depth : Nat} {form : Container} {ts rest : List Token} {item : Item},
    container? form depth ts = some (item, rest) → .keyword form.keyword :: ts = item.tokens ++ rest
  | depth + 1, form, ts, rest, item, h => by
    unfold container? at h
    split at h
    · rename_i hname
      obtain ⟨⟨body, after⟩, hbody, heq⟩ := Option.map_eq_some_iff.mp h
      obtain ⟨rfl, rfl⟩ := Prod.mk.inj heq
      rw [of_name? hname, of_body? hbody]
      simp only [Item.tokens, List.cons_append, List.append_assoc, List.nil_append]
    · cases h

theorem of_body? : ∀ {depth : Nat} {ts rest : List Token} {items : List Item},
    body? depth ts = some (items, rest) → ts = itemsTokens items ++ .mark .closeBrace :: rest
  | depth + 1, ts, rest, items, h => by
    unfold body? at h
    split at h
    · obtain ⟨rfl, rfl⟩ := Prod.mk.inj (Option.some.inj h)
      rfl
    · split at h
      · cases h
      · rename_i hitem
        obtain ⟨⟨others, after⟩, hothers, heq⟩ := Option.map_eq_some_iff.mp h
        obtain ⟨rfl, rfl⟩ := Prod.mk.inj heq
        rw [of_item? hitem, of_body? hothers, itemsTokens, List.append_assoc]

end

theorem of_entries? {entries : List Entry} (h : entries? depth ts = some entries) :
    ts = entriesTokens entries := by
  induction depth generalizing ts entries with
  | zero => cases h
  | succ depth ih =>
    unfold entries? at h
    split at h
    · obtain rfl := Option.some.inj h
      rfl
    · split at h
      · cases h
      · rename_i hbody
        obtain ⟨others, hothers, rfl⟩ := Option.map_eq_some_iff.mp h
        rw [of_body? hbody, ih hothers]
        simp only [entriesTokens, Entry.tokens, List.cons_append, List.append_assoc, List.nil_append]
    · split at h
      · cases h
      · rename_i hitem
        obtain ⟨others, hothers, rfl⟩ := Option.map_eq_some_iff.mp h
        rw [of_item? hitem, ih hothers]
        rfl

/-! ## Texts -/

theorem ofTokens?_eq_some_iff {script : Script} : ofTokens? ts = some script ↔ ts = script.tokens := by
  constructor
  · intro h
    obtain ⟨entries, hentries, rfl⟩ := Option.map_eq_some_iff.mp h
    exact of_entries? hentries
  · rintro rfl
    rw [ofTokens?, tokens, entries?_tokens script.entries (Nat.le_refl _)]
    rfl

/-- A script is read from the texts in which it is written down, and from no others. -/
theorem read?_eq_some_iff {text : String} {script : Script} :
    read? text.toList = some script ↔ Writes text script := by
  have hwritten : scan? text.toList = some script.tokens ↔ Writes text script :=
    scan?_eq_some_iff (sealed_entries script.entries).chain
  rw [← hwritten, read?, Option.bind_eq_some_iff]
  constructor
  · rintro ⟨ts, hscan, hread⟩
    rw [hscan, ofTokens?_eq_some_iff.mp hread]
  · intro hscan
    exact ⟨script.tokens, hscan, ofTokens?_eq_some_iff.mpr rfl⟩

end ArtifactLayout.Script
