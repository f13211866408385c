import AttrGrammar.Proofs.Json.Written

/-! The reader takes written values, and takes each as its value. -/

namespace AttrGrammar.Json

def Blanks.append (a b : Blanks) : Blanks :=
  ⟨a.1 ++ b.1, fun c member => (List.mem_append.1 member).elim (a.2 c) (b.2 c)⟩

theorem nextItem_close (first : Bool) (gap : Blanks) (rest : List Char) :
    nextItem first (gap.1 ++ ']' :: rest) = .ok (false, rest) := by
  rw [nextItem, skipBlanks_append gap (solid_cons rfl _)]
  rfl

theorem nextItem_item (first : Bool) (gap lead : Blanks) (w : Written) (rest : List Char) :
    nextItem first (gap.1 ++ (comma first ++ (lead.1 ++ (w.text ++ rest)))) =
      .ok (true, w.text ++ rest) := by
  obtain ⟨c, tail, same, starts⟩ := w.starts
  have notClosing : c ≠ ']' := by rintro rfl; exact absurd starts (by decide)
  have notComma : c ≠ ',' := by rintro rfl; exact absurd starts (by decide)
  have solid := w.solid rest
  rw [same, List.cons_append] at solid ⊢
  cases first with
  | true =>
    have skipped : skipBlanks (gap.1 ++ (comma true ++ (lead.1 ++ c :: (tail ++ rest)))) =
        c :: (tail ++ rest) := by
      rw [comma, if_pos rfl, List.nil_append, ← List.append_assoc]
      exact skipBlanks_append (gap.append lead) solid
    rw [nextItem, skipped]
    split
    · next failed => cases failed
    · next close => exact absurd (List.cons.inj close).1 notClosing
    · next comma => exact absurd (List.cons.inj comma).1 notComma
    · rfl
  | false =>
    have skipped : skipBlanks (gap.1 ++ (comma false ++ (lead.1 ++ c :: (tail ++ rest)))) =
        ',' :: (lead.1 ++ c :: (tail ++ rest)) := skipBlanks_append gap (solid_cons rfl _)
    rw [nextItem, skipped]
    split
    · next failed => cases failed
    · next close => cases close
    · next after same =>
      cases same
      rw [if_neg Bool.false_ne_true, skipBlanks_append lead solid]
      split
      · next failed => cases failed
      · next close => exact absurd (List.cons.inj close).1 notClosing
      · rfl
    · next other => exact absurd rfl (other _)

theorem nextKey_close (first : Bool) (gap : Blanks) (rest : List Char) :
    nextKey first (gap.1 ++ '}' :: rest) = .ok (false, rest) := by
  rw [nextKey, skipBlanks_append gap (solid_cons rfl _)]
  rfl

theorem nextKey_key (first : Bool) (gap lead : Blanks) (key : Literal) (rest : List Char) :
    nextKey first (gap.1 ++ (comma first ++ (lead.1 ++ (key.text ++ rest)))) =
      .ok (true, key.body ++ '"' :: rest) := by
  have quoted : key.text ++ rest = '"' :: (key.body ++ '"' :: rest) := by
    rw [Literal.text, List.cons_append, List.append_assoc]
    rfl
  rw [quoted]
  cases first with
  | true =>
    have skipped : skipBlanks (gap.1 ++ (comma true ++ (lead.1 ++ '"' :: (key.body ++ '"' :: rest)))) =
        '"' :: (key.body ++ '"' :: rest) := by
      rw [comma, if_pos rfl, List.nil_append, ← List.append_assoc]
      exact skipBlanks_append (gap.append lead) (solid_cons rfl _)
    rw [nextKey, skipped]
    rfl
  | false =>
    have skipped : skipBlanks (gap.1 ++ (comma false ++ (lead.1 ++ '"' :: (key.body ++ '"' :: rest)))) =
        ',' :: (lead.1 ++ '"' :: (key.body ++ '"' :: rest)) :=
      skipBlanks_append gap (solid_cons rfl _)
    rw [nextKey, skipped]
    split
    · next failed => cases failed
    · next close => cases close
    · next quote => cases quote
    · next after same =>
      cases same
      rw [if_neg Bool.false_ne_true, skipBlanks_append lead (solid_cons rfl _)]
      rfl
    · next other => exact absurd rfl (other _)

theorem readColon_blanks (before : Blanks) (rest : List Char) :
    readColon (before.1 ++ ':' :: rest) = .ok ((), rest) := by
  rw [readColon, skipBlanks_append before (solid_cons rfl _)]
  rfl

theorem ends_cons {c : Char} (stops : c.isDigit = false ∧ c ≠ '.' ∧ c ≠ 'e' ∧ c ≠ 'E')
    (rest : List Char) : Ends (c :: rest) := by
  intro c' head
  cases head
  exact stops

theorem Written.length_pos (w : Written) : 1 ≤ w.text.length := by
  obtain ⟨c, tail, same, _⟩ := w.starts
  rw [same, List.length_cons]
  omega

theorem Items.length_pos (items : Items) : 1 ≤ (items.text false).length := by
  cases items <;> simp [text, comma]

theorem Members.length_pos (members : Members) : 1 ≤ (members.text false).length := by
  cases members <;> simp [text, comma]

theorem Items.ends (items : Items) (rest : List Char) : Ends (items.text false ++ rest) := by
  cases items with
  | nil => exact ends_cons (by decide) _
  | cons lead item trail others => exact ends_cons (by decide) _

theorem Members.ends (members : Members) (rest : List Char) :
    Ends (members.text false ++ rest) := by
  cases members with
  | nil => exact ends_cons (by decide) _
  | cons lead key before after value trail others => exact ends_cons (by decide) _

theorem readValue_blanks (fuel depth : Nat) (b : Blanks) {rest : List Char} (solid : Solid rest) :
    readValue fuel depth (b.1 ++ rest) = readValue fuel depth rest := by
  cases fuel with
  | zero => rfl
  | succ fuel => rw [readValue, readValue, skipBlanks_append b solid, skipBlanks_solid solid]

theorem readValue_digit {c : Char} (digit : c.isDigit = true) (fuel depth : Nat)
    (rest : List Char) : readValue (fuel + 1) depth (c :: rest) = readNumber false (c :: rest) := by
  have starts : opens c = true := by simp [opens, digit]
  rw [readValue, skipBlanks_solid (solid_cons (not_blank_of_opens starts) _)]
  split
  all_goals try (next same => obtain ⟨rfl, _⟩ := List.cons.inj same; cases digit)
  · next failed => cases failed
  · next same =>
    cases same
    rw [if_pos digit]

theorem Numeral.readValue (n : Numeral) (fuel depth : Nat) {rest : List Char} (ends : Ends rest) :
    readValue (fuel + 1) depth (n.text ++ rest) = .ok (n.value, rest) := by
  have reads := n.reads rest ends
  rw [text]
  cases negative : n.negative with
  | true =>
    rw [negative] at reads
    rw [if_pos rfl, List.cons_append, Json.readValue, skipBlanks_solid (solid_cons rfl _)]
    exact reads
  | false =>
    rw [negative] at reads
    obtain ⟨c, tail, same, digit⟩ := n.shape.starts
    rw [if_neg Bool.false_ne_true]
    rw [same, List.cons_append] at reads ⊢
    rw [readValue_digit digit, reads]

theorem Literal.readValue (l : Literal) (fuel depth : Nat) (rest : List Char) :
    readValue (fuel + 1) depth (l.text ++ rest) = .ok (.string l.value, rest) := by
  rw [text, List.cons_append, List.append_assoc, Json.readValue,
    skipBlanks_solid (solid_cons rfl _)]
  change (readString (l.body ++ '"' :: rest)).map _ = _
  rw [l.readString_body]
  rfl

mutual

theorem Written.readValue_text : ∀ (w : Written) {fuel depth : Nat} {rest : List Char},
    w.text.length ≤ fuel → w.depth < depth → Ends rest →
    readValue fuel depth (w.text ++ rest) = .ok (w.json, rest)
  | w, 0, _, _, enough, _, _ => by
    obtain ⟨c, tail, same, _⟩ := w.starts
    rw [same] at enough
    cases enough
  | .null, fuel + 1, depth, rest, _, _, _ => by
    rw [readValue, skipBlanks_solid (Written.solid .null rest)]
    rfl
  | .bool true, fuel + 1, depth, rest, _, _, _ => by
    rw [readValue, skipBlanks_solid (Written.solid (.bool true) rest)]
    rfl
  | .bool false, fuel + 1, depth, rest, _, _, _ => by
    rw [readValue, skipBlanks_solid (Written.solid (.bool false) rest)]
    rfl
  | .number n, fuel + 1, depth, rest, _, _, ends => n.readValue fuel depth ends
  | .string l, fuel + 1, depth, rest, _, _, _ => l.readValue fuel depth rest
  | .array gap items, fuel + 1, depth, rest, enough, shallow, _ => by
    rw [Written.text, List.length_cons, List.length_append] at enough
    rw [Written.depth] at shallow
    have read : readItems fuel (depth - 1) true (gap.1 ++ (items.text true ++ rest)) =
        .ok (items.json, rest) := items.readItems_text true gap (by omega) (by omega)
    rw [readValue, skipBlanks_solid (Written.solid (.array gap items) rest), Written.text,
      List.cons_append, List.append_assoc]
    change (if depth ≤ 1 then stopNext .recursionLimit _ else
      (readItems fuel (depth - 1) true (gap.1 ++ (items.text true ++ rest))).map _) = _
    rw [if_neg (by omega), read]
    rfl
  | .object gap members, fuel + 1, depth, rest, enough, shallow, _ => by
    rw [Written.text, List.length_cons, List.length_append] at enough
    rw [Written.depth] at shallow
    have read : readMembers fuel (depth - 1) true [] (gap.1 ++ (members.text true ++ rest)) =
        .ok (members.entries [], rest) :=
      members.readMembers_text true [] gap (by omega) (by omega)
    rw [readValue, skipBlanks_solid (Written.solid (.object gap members) rest), Written.text,
      List.cons_append, List.append_assoc]
    change (if depth ≤ 1 then stopNext .recursionLimit _ else
      (readMembers fuel (depth - 1) true [] (gap.1 ++ (members.text true ++ rest))).map _) = _
    rw [if_neg (by omega), read]
    rfl

theorem Items.readItems_text : ∀ (items : Items) (first : Bool) (gap : Blanks) {fuel depth : Nat}
    {rest : List Char}, (items.text first).length ≤ fuel → items.depth < depth →
    readItems fuel depth first (gap.1 ++ (items.text first ++ rest)) = .ok (items.json, rest)
  | .nil, _, _, 0, _, _, enough, _ => absurd enough (by simp [Items.text])
  | .nil, first, gap, fuel + 1, depth, rest, _, _ => by
    rw [readItems, Items.text, List.singleton_append, nextItem_close]
    rfl
  | .cons _ item _ _, _, _, 0, _, _, enough, _ => by
    obtain ⟨c, tail, same, _⟩ := item.starts
    simp [Items.text, same] at enough
  | .cons lead item trail others, first, gap, fuel + 1, depth, rest, enough, shallow => by
    have someItem := item.length_pos
    have someOthers := others.length_pos
    rw [Items.depth] at shallow
    simp only [Items.text, List.length_append] at enough
    have readItem : readValue fuel depth (item.text ++ (trail.1 ++ (others.text false ++ rest))) =
        .ok (item.json, trail.1 ++ (others.text false ++ rest)) :=
      item.readValue_text (by omega) (by omega) ((others.ends rest).of_blanks trail)
    have readOthers : readItems fuel depth false (trail.1 ++ (others.text false ++ rest)) =
        .ok (others.json, rest) := others.readItems_text false trail (by omega) (by omega)
    rw [readItems, Items.text]
    simp only [List.append_assoc]
    rw [nextItem_item]
    change (readValue fuel depth (item.text ++ (trail.1 ++ (others.text false ++ rest))) >>= _) = _
    rw [readItem]
    change (readItems fuel depth false (trail.1 ++ (others.text false ++ rest)) >>= _) = _
    rw [readOthers]
    rfl

theorem Members.readMembers_text : ∀ (members : Members) (first : Bool)
    (entries : List (String × Json)) (gap : Blanks) {fuel depth : Nat} {rest : List Char},
    (members.text first).length ≤ fuel → members.depth < depth →
    readMembers fuel depth first entries (gap.1 ++ (members.text first ++ rest)) =
      .ok (members.entries entries, rest)
  | .nil, _, _, _, 0, _, _, enough, _ => absurd enough (by simp [Members.text])
  | .nil, first, entries, gap, fuel + 1, depth, rest, _, _ => by
    rw [readMembers, Members.text, List.singleton_append, nextKey_close]
    rfl
  | .cons _ key _ _ _ _ _, _, _, _, 0, _, _, enough, _ => by
    simp [Members.text, Literal.text] at enough
  | .cons lead key before after value trail others, first, entries, gap, fuel + 1, depth, rest,
      enough, shallow => by
    have someValue := value.length_pos
    have someOthers := others.length_pos
    rw [Members.depth] at shallow
    simp only [Members.text, List.length_append, List.length_cons] at enough
    have readItem : readValue fuel depth
        (value.text ++ (trail.1 ++ (others.text false ++ rest))) =
        .ok (value.json, trail.1 ++ (others.text false ++ rest)) :=
      value.readValue_text (by omega) (by omega) ((others.ends rest).of_blanks trail)
    have readOthers : readMembers fuel depth false (putEntry key.value value.json entries)
        (trail.1 ++ (others.text false ++ rest)) =
        .ok (others.entries (putEntry key.value value.json entries), rest) :=
      others.readMembers_text false _ trail (by omega) (by omega)
    rw [readMembers, Members.text]
    simp only [List.append_assoc, List.cons_append]
    rw [nextKey_key]
    change (readString (key.body ++ '"' :: _) >>= _) = _
    rw [key.readString_body]
    change (readColon (before.1 ++ ':' :: _) >>= _) = _
    rw [readColon_blanks]
    change (readValue fuel depth (after.1 ++ _) >>= _) = _
    rw [readValue_blanks _ _ after (value.solid _), readItem]
    exact readOthers

end

/-- A text that is one written value with blanks around it is read as the value. -/
theorem read_text (lead trail : Blanks) (w : Written) (shallow : w.depth < depthLimit) :
    read (String.ofList (lead.1 ++ (w.text ++ trail.1))) = .ok w.json := by
  have ends : Ends trail.1 := by
    have nothing := ends_nil.of_blanks trail
    rwa [List.append_nil] at nothing
  have value : ∀ fuel, w.text.length ≤ fuel →
      readValue fuel depthLimit (lead.1 ++ (w.text ++ trail.1)) = .ok (w.json, trail.1) := by
    intro fuel enough
    rw [readValue_blanks _ _ lead (w.solid _), w.readValue_text enough shallow ends]
  have blank : skipBlanks trail.1 = [] := by
    have all := @skipBlanks_append trail [] nofun
    rwa [List.append_nil] at all
  have all : readAll (lead.1 ++ (w.text ++ trail.1)) = .ok w.json := by
    rw [readAll, value _ (by simp only [List.length_append]; omega), except_ok_bind]
    dsimp only
    rw [blank]
  rw [read, String.toList_ofList, all]

/-- A string literal spells its value. -/
theorem decodeString?_text (l : Literal) :
    decodeString? (String.ofList l.text) = some l.value := by
  have shallow : (Written.string l).depth < depthLimit := by
    change 0 < depthLimit
    decide
  have alone := read_text ⟨[], nofun⟩ ⟨[], nofun⟩ (.string l) shallow
  rw [List.nil_append, List.append_nil, Written.text, Written.json] at alone
  rw [decodeString?, alone]

/-- What the reader takes with some fuel. -/
structure Sound (fuel : Nat) : Prop where
  value : ∀ {depth text v rest}, 0 < depth → readValue fuel depth text = .ok (v, rest) →
    ∃ (lead : Blanks) (w : Written), text = lead.1 ++ (w.text ++ rest) ∧ w.json = v ∧ w.depth < depth
  items : ∀ {depth first text vs rest}, 0 < depth →
    readItems fuel depth first text = .ok (vs, rest) →
    ∃ (gap : Blanks) (items : Items), text = gap.1 ++ (items.text first ++ rest) ∧
      items.json = vs ∧ items.depth < depth
  members : ∀ {depth first entries text vs rest}, 0 < depth →
    readMembers fuel depth first entries text = .ok (vs, rest) →
    ∃ (gap : Blanks) (members : Members), text = gap.1 ++ (members.text first ++ rest) ∧
      members.entries entries = vs ∧ members.depth < depth

theorem exists_of_readWord {value v : Json} {word text rest : List Char}
    (done : readWord value word text = .ok (v, rest)) : text = word ++ rest ∧ v = value := by
  induction word generalizing text with
  | nil =>
    cases done
    exact ⟨rfl, rfl⟩
  | cons expected word ih =>
    cases text with
    | nil => cases done
    | cons c text =>
      rw [readWord] at done
      split at done
      · next same =>
        obtain ⟨rfl, rfl⟩ := ih done
        exact ⟨by rw [same]; rfl, rfl⟩
      · cases done

theorem exists_of_nextItem {first more : Bool} {text rest : List Char}
    (done : nextItem first text = .ok (more, rest)) :
    more = false ∧ (∃ gap : Blanks, text = gap.1 ++ ']' :: rest) ∨
      more = true ∧ ∃ gap lead : Blanks, text = gap.1 ++ (comma first ++ (lead.1 ++ rest)) := by
  unfold nextItem at done
  split at done
  · cases done
  · next after begins =>
    cases done
    obtain ⟨gap, rfl⟩ := exists_blanks_of_skipBlanks begins
    exact Or.inl ⟨rfl, gap, rfl⟩
  · next after begins =>
    obtain ⟨gap, rfl⟩ := exists_blanks_of_skipBlanks begins
    cases first with
    | true =>
      cases done
      exact Or.inr ⟨rfl, gap, ⟨[], nofun⟩, rfl⟩
    | false =>
      rw [if_neg Bool.false_ne_true] at done
      split at done
      · cases done
      · cases done
      · cases done
        obtain ⟨lead, same⟩ := exists_blanks after
        refine Or.inr ⟨rfl, gap, lead, ?_⟩
        rw [← same]
        rfl
  · split at done
    · next isFirst =>
      cases done
      obtain ⟨gap, same⟩ := exists_blanks text
      refine Or.inr ⟨rfl, gap, ⟨[], nofun⟩, ?_⟩
      rw [isFirst]
      exact same
    · cases done

theorem exists_of_nextKey {first more : Bool} {text rest : List Char}
    (done : nextKey first text = .ok (more, rest)) :
    more = false ∧ (∃ gap : Blanks, text = gap.1 ++ '}' :: rest) ∨
      more = true ∧ ∃ gap lead : Blanks,
        text = gap.1 ++ (comma first ++ (lead.1 ++ '"' :: rest)) := by
  unfold nextKey at done
  split at done
  · cases done
  · next after begins =>
    cases done
    obtain ⟨gap, rfl⟩ := exists_blanks_of_skipBlanks begins
    exact Or.inl ⟨rfl, gap, rfl⟩
  · next after begins =>
    split at done
    · next isFirst =>
      cases done
      obtain ⟨gap, rfl⟩ := exists_blanks_of_skipBlanks begins
      exact Or.inr ⟨rfl, gap, ⟨[], nofun⟩, by rw [isFirst]; rfl⟩
    · cases done
  · next after begins =>
    obtain ⟨gap, rfl⟩ := exists_blanks_of_skipBlanks begins
    split at done
    · cases done
    · next notFirst =>
      rw [Bool.not_eq_true] at notFirst
      split at done
      · cases done
      · next rest' same =>
        cases done
        obtain ⟨lead, rfl⟩ := exists_blanks_of_skipBlanks same
        exact Or.inr ⟨rfl, gap, lead, by rw [notFirst]; rfl⟩
      · cases done
      · cases done
  · cases done

theorem exists_of_readColon {text rest : List Char} (done : readColon text = .ok ((), rest)) :
    ∃ before : Blanks, text = before.1 ++ ':' :: rest := by
  unfold readColon at done
  split at done
  · next after begins =>
    cases done
    exact exists_blanks_of_skipBlanks begins
  · cases done
  · cases done

theorem map_eq_ok {α β : Type} {x : Except Stop (α × List Char)} {f : α → β} {b : β}
    {rest : List Char} (done : x.map (fun (a, rest) => (f a, rest)) = .ok (b, rest)) :
    ∃ a, x = .ok (a, rest) ∧ f a = b := by
  cases x with
  | error e => cases done
  | ok a =>
    cases done
    exact ⟨a.1, rfl, rfl⟩

theorem Sound.nextValue {fuel : Nat} (sound : Sound fuel) {depth : Nat} {text rest : List Char}
    {v : Json} (deep : 0 < depth) (done : readValue (fuel + 1) depth text = .ok (v, rest)) :
    ∃ (lead : Blanks) (w : Written), text = lead.1 ++ (w.text ++ rest) ∧ w.json = v ∧
      w.depth < depth := by
  obtain ⟨lead, same⟩ := exists_blanks text
  rw [same, readValue_blanks _ _ lead (solid_skipBlanks text), readValue,
    skipBlanks_solid (solid_skipBlanks text)] at done
  refine ⟨lead, ?_⟩
  rw [same]
  split at done
  · cases done
  · next after begins =>
    obtain ⟨rfl, rfl⟩ := exists_of_readWord done
    exact ⟨.null, by rw [begins]; rfl, rfl, deep⟩
  · next after begins =>
    obtain ⟨rfl, rfl⟩ := exists_of_readWord done
    exact ⟨.bool true, by rw [begins]; rfl, rfl, deep⟩
  · next after begins =>
    obtain ⟨rfl, rfl⟩ := exists_of_readWord done
    exact ⟨.bool false, by rw [begins]; rfl, rfl, deep⟩
  · next after begins =>
    obtain ⟨n, negative, rfl, rfl⟩ := Numeral.exists_of_readNumber done
    refine ⟨.number n, ?_, rfl, deep⟩
    rw [begins, Written.text, Numeral.text, negative]
    rfl
  · next after begins =>
    obtain ⟨s, read, rfl⟩ := map_eq_ok done
    obtain ⟨l, rfl, rfl⟩ := Literal.exists_of_readString read
    refine ⟨.string l, ?_, rfl, deep⟩
    rw [begins, Written.text, Literal.text, List.cons_append, List.append_assoc]
    rfl
  · next after begins =>
    split at done
    · cases done
    · obtain ⟨vs, read, rfl⟩ := map_eq_ok done
      obtain ⟨gap, items, rfl, rfl, shallow⟩ := sound.items (by omega) read
      refine ⟨.array gap items, ?_, rfl, by rw [Written.depth]; omega⟩
      rw [begins, Written.text, List.cons_append, List.append_assoc]
  · next after begins =>
    split at done
    · cases done
    · obtain ⟨vs, read, rfl⟩ := map_eq_ok done
      obtain ⟨gap, members, rfl, rfl, shallow⟩ := sound.members (by omega) read
      refine ⟨.object gap members, ?_, rfl, by rw [Written.depth]; omega⟩
      rw [begins, Written.text, List.cons_append, List.append_assoc]
  · next c after _ _ _ _ _ _ _ begins =>
    split at done
    · obtain ⟨n, negative, rfl, number⟩ := Numeral.exists_of_readNumber done
      refine ⟨.number n, ?_, rfl, deep⟩
      rw [begins, number, Written.text, Numeral.text, negative]
      rfl
    · cases done

theorem Sound.nextItems {fuel : Nat} (sound : Sound fuel) {depth : Nat} {first : Bool}
    {text rest : List Char} {vs : List Json} (deep : 0 < depth)
    (done : readItems (fuel + 1) depth first text = .ok (vs, rest)) :
    ∃ (gap : Blanks) (items : Items), text = gap.1 ++ (items.text first ++ rest) ∧
      items.json = vs ∧ items.depth < depth := by
  rw [readItems] at done
  obtain ⟨⟨more, after⟩, separated, next⟩ := except_bind_eq_ok.1 done
  rcases exists_of_nextItem separated with ⟨rfl, gap, rfl⟩ | ⟨rfl, gap, lead, rfl⟩
  · cases next
    exact ⟨gap, .nil, rfl, rfl, deep⟩
  · obtain ⟨⟨item, afterItem⟩, readItem, final⟩ := except_bind_eq_ok.1 next
    obtain ⟨⟨others, last⟩, readOthers, same⟩ := except_bind_eq_ok.1 final
    cases same
    obtain ⟨lead', w, rfl, rfl, shallow⟩ := sound.value deep readItem
    obtain ⟨trail, items, rfl, rfl, shallow'⟩ := sound.items deep readOthers
    refine ⟨gap, .cons (lead.append lead') w trail items, ?_, rfl, ?_⟩
    · simp [Items.text, Blanks.append]
    · rw [Items.depth]
      omega

theorem Sound.nextMembers {fuel : Nat} (sound : Sound fuel) {depth : Nat} {first : Bool}
    {text rest : List Char} {entries vs : List (String × Json)} (deep : 0 < depth)
    (done : readMembers (fuel + 1) depth first entries text = .ok (vs, rest)) :
    ∃ (gap : Blanks) (members : Members), text = gap.1 ++ (members.text first ++ rest) ∧
      members.entries entries = vs ∧ members.depth < depth := by
  rw [readMembers] at done
  obtain ⟨⟨more, after⟩, separated, next⟩ := except_bind_eq_ok.1 done
  rcases exists_of_nextKey separated with ⟨rfl, gap, rfl⟩ | ⟨rfl, gap, lead, rfl⟩
  · cases next
    exact ⟨gap, .nil, rfl, rfl, deep⟩
  · obtain ⟨⟨name, afterName⟩, readName, next⟩ := except_bind_eq_ok.1 next
    obtain ⟨⟨_, afterColon⟩, colon, next⟩ := except_bind_eq_ok.1 next
    obtain ⟨⟨value, afterValue⟩, readItem, readOthers⟩ := except_bind_eq_ok.1 next
    obtain ⟨key, rfl, rfl⟩ := Literal.exists_of_readString readName
    obtain ⟨before, rfl⟩ := exists_of_readColon colon
    obtain ⟨after, w, rfl, rfl, shallow⟩ := sound.value deep readItem
    obtain ⟨trail, members, rfl, rfl, shallow'⟩ := sound.members deep readOthers
    refine ⟨gap, .cons lead key before after w trail members, ?_, rfl, ?_⟩
    · simp [Members.text, Literal.text]
    · rw [Members.depth]
      omega

theorem sound (fuel : Nat) : Sound fuel := by
  induction fuel with
  | zero => exact ⟨nofun, nofun, nofun⟩
  | succ fuel ih => exact ⟨ih.nextValue, ih.nextItems, ih.nextMembers⟩

/-- A text that is read is one written value with blanks around it. -/
theorem exists_of_read {source : String} {v : Json} (done : read source = .ok v) :
    ∃ (lead trail : Blanks) (w : Written), source.toList = lead.1 ++ (w.text ++ trail.1) ∧
      w.json = v ∧ w.depth < depthLimit := by
  unfold read at done
  split at done
  · next value all =>
    cases done
    obtain ⟨⟨value', rest⟩, readFirst, ending⟩ := except_bind_eq_ok.1 all
    obtain ⟨lead, w, same, rfl, shallow⟩ := (sound _).value (by decide) readFirst
    cases blank : skipBlanks rest with
    | nil =>
      simp only [blank] at ending
      cases ending
      obtain ⟨trail, rfl⟩ := exists_blanks_of_skipBlanks blank
      rw [List.append_nil] at same
      exact ⟨lead, trail, w, same, rfl, shallow⟩
    | cons c others =>
      simp only [blank] at ending
      cases ending
  · cases done

end AttrGrammar.Json
