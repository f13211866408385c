import AttrGrammar.Proofs.Folding.Termination
import AttrGrammar.Proofs.Procedure.Strings

/-!
Folding makes one token of each string, of each array and of each empty object.

The first folds of the first round make one token of each string. From then on each other group
stands in the tokens in one of three ways: its brackets are still there with what the folds have made
of its inside, or it is one token already, or it has been joined with its neighbours inside an array.
Every fold keeps this, and where nothing is left to fold no group is open.
-/

namespace AttrGrammar.Procedure

/-- Some tokens stand for some pieces, on the way from the tokens where strings are folded. -/
inductive Stands (combine : Combiner) : Option Group → List Token → List Piece → Prop where
  | nil {around} : Stands combine around [] []
  | token {around ts ps} (t : Token) (others : Stands combine around ts ps) :
    Stands combine around (t :: ts) (.token t :: ps)
  /-- The brackets of a group are still there. -/
  | opened {around us ts inside ps} (k : Group) (opening closing : Token)
    (bracketed : k.isQuoted = false) (within : Stands combine (some k) us inside)
    (others : Stands combine around ts ps) :
    Stands combine around (opening :: (us ++ closing :: ts))
      (.group k opening inside closing :: ps)
  | closed {around ts ps} (k : Group) (opening : Token) (inside : List Piece) (closing : Token)
    (others : Stands combine around ts ps) :
    Stands combine around ((Piece.group k opening inside closing).folded combine :: ts)
      (.group k opening inside closing :: ps)
  /-- Pieces inside a group are joined. -/
  | chunk {k ts ps} (content : String) (known : k.content? = some content) (qs : List Piece)
    (nonempty : qs ≠ []) (others : Stands combine (some k) ts ps) :
    Stands combine (some k) (combine content (rawAll qs) :: ts) (qs ++ ps)

mutual

/-- Tokens where strings are folded stand for their pieces. -/
theorem Piece.stands (combine : Combiner) {shut : Group → Bool → Bool}
    (folded : ∀ k empty, k.isQuoted = true → shut k empty = true) : ∀ (p : Piece)
      {around : Option Group} {ts : List Token} {ps : List Piece}, Stands combine around ts ps →
        Stands combine around (p.midway combine shut ++ ts) (p :: ps)
  | .token t, _, _, _, others => .token t others
  | .group k opening inside closing, around, ts, ps, others => by
    rw [Piece.midway]
    cases quoted : k.isQuoted with
    | true =>
      rw [folded k _ quoted]
      exact .closed k opening inside closing others
    | false =>
      have within := stands_midwayAll combine folded (some k) inside
      have whole := Stands.opened k opening closing quoted within others
      rw [if_neg Bool.false_ne_true, List.cons_append, List.append_assoc]
      exact whole

theorem stands_midwayAll (combine : Combiner) {shut : Group → Bool → Bool}
    (folded : ∀ k empty, k.isQuoted = true → shut k empty = true) (around : Option Group) :
      ∀ ps : List Piece, Stands combine around (midwayAll combine shut ps) ps
  | [] => .nil
  | p :: ps => p.stands combine folded (stands_midwayAll combine folded around ps)

end

/-- The names that the first token for some pieces can have. -/
def headNames (around : Option Group) : List String :=
  tokensIn around ++ (groupsIn around).flatMap (fun k => [k.opening, k.full, k.empty]) ++
    (around.bind Group.content?).toList

variable {combine : Combiner} {around : Option Group} {t : Token} {us ts rest part : List Token}
  {ps : List Piece}

theorem Stands.head (joins : Joins combine) (stands : Stands combine around (t :: ts) ps)
    (fit : Fit around ps) : t.name ∈ headNames around := by
  simp only [headNames, List.mem_append, List.mem_flatMap]
  generalize tokens : t :: ts = us at stands
  cases stands with
  | nil => cases tokens
  | token u others =>
    cases tokens
    exact Or.inl (Or.inl fit.1)
  | opened k opening closing bracketed within others =>
    cases tokens
    refine Or.inl (Or.inr ⟨k, fit.1.1, ?_⟩)
    rw [fit.1.2.1]
    exact List.mem_cons_self
  | closed k opening inside closing others =>
    cases tokens
    refine Or.inl (Or.inr ⟨k, fit.1.1, ?_⟩)
    rw [folded_name joins]
    split <;> simp
  | chunk content known qs nonempty others =>
    cases tokens
    refine Or.inr ?_
    rw [joins.name, Option.bind_some, known]
    exact List.mem_cons_self

/-- What comes after the pieces of a group: its closing bracket. -/
def Follows (around : Option Group) (rest : List Token) : Prop :=
  ∀ t, rest.head? = some t → ∃ k, around = some k ∧ t.name = k.closing

theorem Follows.nil (around : Option Group) : Follows around [] := by
  intro t first
  cases first

/-- The parts that the folds replace, and what by. -/
inductive Reduces : String → List Token → Prop where
  | full (k : Group) {part : List Token} (content : String) (known : k.content? = some content)
    (names : part.map (·.name) = [k.opening, content, k.closing]) : Reduces k.full part
  | empty (k : Group) {part : List Token} (names : part.map (·.name) = [k.opening, k.closing]) :
    Reduces k.empty part
  | run (k : Group) {part : List Token} (content : String) (known : k.content? = some content)
    (nonempty : part ≠ []) (names : ∀ t ∈ part, t.name ∈ content :: k.items) : Reduces content part

/-- A name cannot begin the tokens for some pieces, and be one that a fold looks for there. -/
theorem opening_not_item {k k' : Group} (among : k' ∈ groupsIn (some k)) {content : String}
    (known : k.content? = some content) : k'.opening ∉ content :: k.items := by
  cases k <;> cases k' <;> cases known <;> first | (cases among; done) | decide

theorem closing_not_item (k : Group) {k' : Group} {content : String}
    (known : k'.content? = some content) : k.closing ∉ content :: k'.items := by
  cases k' <;> cases known <;> cases k <;> decide

theorem closing_not_head (k : Group) : k.closing ∉ headNames (some k) := by
  cases k <;> decide

/-- Where a run can begin. -/
theorem around_of_item {k : Group} {content : String} (known : k.content? = some content) {n : String}
    (head : n ∈ headNames around) (item : n ∈ content :: k.items) :
    ∃ k', around = some k' ∧ k'.content? = some content ∧ k'.items = k.items := by
  have checked : ∀ n ∈ headNames around, n ∈ content :: k.items →
      ∃ k', around = some k' ∧ k'.content? = some content ∧ k'.items = k.items := by
    cases around with
    | none => cases k <;> cases known <;> decide
    | some k' =>
      cases k <;> cases known <;> cases k' <;> first
        | exact fun _ _ _ => ⟨_, rfl, rfl, rfl⟩
        | decide
  exact checked n head item

/-- Tokens inside a group that are folded together stand for some of its pieces. -/
theorem Stands.run (joins : Joins combine) {k : Group} {content : String}
    (known : k.content? = some content) {ys : List Token} (stands : Stands combine (some k) us ps)
    (fit : Fit (some k) ps) (same : us = part ++ ys)
    (items : ∀ t ∈ part, t.name ∈ content :: k.items) :
    ∃ qs ps', ps = qs ++ ps' ∧ Stands combine (some k) ys ps' ∧ (part ≠ [] → qs ≠ []) ∧
      ∀ name before, combine name (before ++ part) = combine name (before ++ rawAll qs) := by
  induction part generalizing us ps with
  | nil =>
    subst same
    exact ⟨[], ps, rfl, stands, fun visible => absurd rfl visible, fun _ _ => rfl⟩
  | cons u part ih =>
    have later := fun t member => items t (List.mem_cons_of_mem u member)
    cases stands with
    | nil => cases same
    | token t others =>
      obtain ⟨rfl, after⟩ := List.cons.inj same
      obtain ⟨qs, ps', rfl, stands, _, joined⟩ := ih others fit.2.2 after later
      refine ⟨.token t :: qs, ps', rfl, stands, fun _ => List.cons_ne_nil _ _, fun name before => ?_⟩
      have moved := joined name (before ++ [t])
      rw [List.append_assoc, List.append_assoc] at moved
      exact moved
    | opened k' opening closing bracketed within others =>
      obtain ⟨rfl, _⟩ := List.cons.inj same
      have item := items opening List.mem_cons_self
      rw [fit.1.2.1] at item
      exact absurd item (opening_not_item fit.1.1 known)
    | closed k' opening within closing others =>
      obtain ⟨rfl, after⟩ := List.cons.inj same
      obtain ⟨qs, ps', rfl, stands, _, joined⟩ := ih others fit.2.2 after later
      refine ⟨_ :: qs, ps', rfl, stands, fun _ => List.cons_ne_nil _ _, fun name before => ?_⟩
      have moved := joined name (before ++ (opening :: (rawAll within ++ [closing])))
      rw [Piece.folded, joins.join, ← List.append_assoc, moved,
        rawAll, Piece.raw, List.append_assoc]
    | chunk content' known' qs nonempty others =>
      obtain ⟨rfl, after⟩ := List.cons.inj same
      obtain ⟨qs', ps', rfl, stands, _, joined⟩ := ih others fit.drop after later
      refine ⟨qs ++ qs', ps', (List.append_assoc _ _ _).symm, stands, fun _ => by simp [nonempty],
        fun name before => ?_⟩
      have moved := joined name (before ++ rawAll qs)
      rw [joins.join, ← List.append_assoc, moved,
        rawAll_append, List.append_assoc]

/-- A run is replaced where it begins. -/
theorem Stands.replace_run (joins : Joins combine) {k : Group} {content : String}
    (known : k.content? = some content) (nonempty : part ≠ [])
    (items : ∀ t ∈ part, t.name ∈ content :: k.items) (stands : Stands combine around us ps)
    (fit : Fit around ps) (follows : Follows around rest) {ys : List Token}
    (same : us ++ rest = part ++ ys) (filled : us ≠ []) :
    ∃ us', ys = us' ++ rest ∧ Stands combine around (combine content part :: us') ps := by
  obtain ⟨k', rfl, known', sameItems⟩ : ∃ k', around = Option.some k' ∧
      k'.content? = Option.some content ∧ k'.items = k.items := by
    cases us with
    | nil => exact absurd rfl filled
    | cons t us =>
      cases part with
      | nil => exact absurd rfl nonempty
      | cons u part =>
        obtain ⟨rfl, _⟩ := List.cons.inj same
        exact around_of_item known (stands.head joins fit) (items t List.mem_cons_self)
  have inside : ∃ us', us = part ++ us' ∧ ys = us' ++ rest := by
    rcases List.append_eq_append_iff.1 same with ⟨more, rfl, after⟩ | ⟨us', rfl, rfl⟩
    · cases more with
      | nil => exact ⟨[], by simp, after.symm⟩
      | cons t more =>
        obtain ⟨k'', _, named⟩ := follows t (by rw [after]; rfl)
        have item := items t (by simp)
        rw [named] at item
        exact absurd item (closing_not_item k'' known)
    · exact ⟨us', rfl, rfl⟩
  obtain ⟨us', rfl, rfl⟩ := inside
  rw [← sameItems] at items
  obtain ⟨qs, ps', rfl, later, visible, joined⟩ := stands.run joins known' fit rfl items
  refine ⟨us', rfl, ?_⟩
  have replaced := joined content []
  rw [List.nil_append, List.nil_append] at replaced
  rw [replaced]
  exact .chunk content known' qs (visible nonempty) later

theorem not_opening_of_folded (k k' : Group) : k.full ≠ k'.opening ∧ k.empty ≠ k'.opening := by
  cases k <;> cases k' <;> decide

theorem not_opening_of_content {k : Group} {content : String} (known : k.content? = some content)
    (k' : Group) : content ≠ k'.opening := by
  cases k <;> cases known <;> cases k' <;> decide

/-- The only token outside groups that could open one is a brace. -/
theorem brace_of_opening {k : Group} {n : String} (listed : n ∈ tokensIn around)
    (opens : n = k.opening) : around = none ∧ k = .object := by
  subst opens
  revert listed
  cases around with
  | none => cases k <;> decide
  | some k' => cases k' <;> cases k <;> decide

/-- An opening token where some pieces begin is that of a group whose brackets are still there, or a
brace. -/
theorem Stands.opening (joins : Joins combine) {k : Group} (stands : Stands combine around (t :: us) ps)
    (fit : Fit around ps) (opens : t.name = k.opening) :
    (∃ ps', around = none ∧ k = .object ∧ ps = .token t :: ps' ∧ Stands combine around us ps') ∨
      ∃ inside closing ps' us' ts, ps = .group k t inside closing :: ps' ∧ us = us' ++ closing :: ts ∧
        Stands combine (some k) us' inside ∧ Stands combine around ts ps' := by
  generalize whole : t :: us = tokens at stands
  cases stands with
  | nil => cases whole
  | token u others =>
    cases whole
    obtain ⟨outside, object⟩ := brace_of_opening fit.1 opens
    exact Or.inl ⟨_, outside, object, rfl, others⟩
  | opened k' opening closing bracketed within others =>
    cases whole
    have named := fit.1.2.1
    rw [opens] at named
    cases opening_injective named
    exact Or.inr ⟨_, _, _, _, _, rfl, rfl, within, others⟩
  | closed k' opening inside closing others =>
    cases whole
    rw [folded_name joins] at opens
    split at opens
    · exact absurd opens (not_opening_of_folded k' k).2
    · exact absurd opens (not_opening_of_folded k' k).1
  | chunk content known qs nonempty others =>
    cases whole
    rw [joins.name] at opens
    exact absurd opens (not_opening_of_content known k)

theorem Stands.nil_pieces {around : Option Group} {ps : List Piece}
    (stands : Stands combine around [] ps) : ps = [] := by
  cases stands
  rfl

/-- A closing brace that is a token by itself does not come after an opening one. -/
theorem Stands.not_rbrace (joins : Joins combine) {opening : Token}
    (stands : Stands combine none (t :: us) ps) (fit : Fit none (.token opening :: ps))
    (opens : opening.name = "lbrace") : t.name ≠ "rbrace" := by
  intro named
  obtain ⟨_, clear, fit⟩ := fit
  generalize whole : t :: us = tokens at stands
  cases stands with
  | nil => cases whole
  | token u others =>
    cases whole
    exact clear ⟨opens, named⟩
  | opened k opening' closing bracketed within others =>
    cases whole
    have both := fit.1.2.1.symm.trans named
    cases k <;> exact absurd both (by decide)
  | closed k opening' inside closing others =>
    cases whole
    rw [folded_name joins] at named
    split at named <;> cases k <;> exact absurd named (by decide)

/-- An empty group is folded where it begins. -/
theorem Stands.replace_empty (joins : Joins combine) {k : Group} {first last : Token}
    (opens : first.name = k.opening) (closes : last.name = k.closing)
    (stands : Stands combine around us ps) (fit : Fit around ps) (follows : Follows around rest)
    {ys : List Token} (same : us ++ rest = first :: last :: ys) (visible : us ≠ []) :
    ∃ us', ys = us' ++ rest ∧ Stands combine around (combine k.empty [first, last] :: us') ps := by
  cases us with
  | nil => exact absurd rfl visible
  | cons t us =>
    obtain ⟨rfl, after⟩ := List.cons.inj same
    rcases stands.opening joins fit opens with
      ⟨ps', rfl, rfl, rfl, others⟩ | ⟨inside, closing, ps', us', ts, rfl, rfl, within, others⟩
    · cases us with
      | nil =>
        have first : rest = last :: ys := after
        obtain ⟨k', absent, _⟩ := follows last (by rw [first]; rfl)
        cases absent
      | cons u us =>
        obtain ⟨rfl, _⟩ := List.cons.inj after
        exact absurd closes (others.not_rbrace joins fit opens)
    · cases us' with
      | nil =>
        obtain ⟨rfl, beyond⟩ := List.cons.inj after
        cases within.nil_pieces
        exact ⟨ts, beyond.symm, .closed k t [] closing others⟩
      | cons u us' =>
        obtain ⟨rfl, _⟩ := List.cons.inj after
        have head := within.head joins fit.1.2.2.2
        rw [closes] at head
        exact absurd head (closing_not_head k)

/-- A token for joined pieces stands for the first pieces inside its group. -/
theorem Stands.joined (joins : Joins combine) {k : Group} {content : String}
    (known : k.content? = some content) (stands : Stands combine (some k) (t :: us) ps)
    (fit : Fit (some k) ps) (named : t.name = content) :
    ∃ qs ps', ps = qs ++ ps' ∧ qs ≠ [] ∧ t = combine content (rawAll qs) ∧
      Stands combine (some k) us ps' := by
  generalize whole : t :: us = tokens at stands
  cases stands with
  | nil => cases whole
  | token u others =>
    cases whole
    have listed := fit.1
    rw [Piece.Fits, named] at listed
    cases k <;> cases known <;> exact absurd listed (by decide)
  | opened k' opening closing bracketed within others =>
    cases whole
    rw [fit.1.2.1] at named
    exact absurd named.symm (not_opening_of_content known k')
  | closed k' opening inside closing others =>
    cases whole
    rw [folded_name joins] at named
    split at named <;> cases k <;> cases known <;> cases k' <;> exact absurd named (by decide)
  | chunk content' known' qs nonempty others =>
    cases whole
    cases known.symm.trans known'
    exact ⟨qs, _, rfl, nonempty, rfl, others⟩

/-- A group is folded where it begins, once its inside is one token. -/
theorem Stands.replace_full (joins : Joins combine) {k : Group} {content : String}
    (known : k.content? = some content) {first middle last : Token}
    (opens : first.name = k.opening) (joined : middle.name = content)
    (closes : last.name = k.closing) (stands : Stands combine around us ps) (fit : Fit around ps)
    {ys : List Token} (same : us ++ rest = first :: middle :: last :: ys) (visible : us ≠ []) :
    ∃ us', ys = us' ++ rest ∧
      Stands combine around (combine k.full [first, middle, last] :: us') ps := by
  cases us with
  | nil => exact absurd rfl visible
  | cons t us =>
    obtain ⟨rfl, after⟩ := List.cons.inj same
    rcases stands.opening joins fit opens with
      ⟨ps', rfl, rfl, rfl, others⟩ | ⟨inside, closing, ps', us', ts, rfl, rfl, within, others⟩
    · cases known
    · cases us' with
      | nil =>
        obtain ⟨rfl, _⟩ := List.cons.inj after
        have clash := joined.symm.trans fit.1.2.2.1
        cases k <;> cases known <;> exact absurd clash (by decide)
      | cons u us' =>
        obtain ⟨rfl, after₁⟩ := List.cons.inj after
        obtain ⟨qs, ps'', rfl, nonempty, rfl, later⟩ := within.joined joins known fit.1.2.2.2 joined
        cases us' with
        | nil =>
          obtain ⟨rfl, beyond⟩ := List.cons.inj after₁
          cases later.nil_pieces
          have whole : combine k.full [t, combine content (rawAll qs), closing] =
              (Piece.group k t (qs ++ []) closing).folded combine := by
            have spread := joins.join k.full content [t] (rawAll qs) [closing]
            have shown : (qs ++ []).isEmpty = false := by simpa using nonempty
            rw [Piece.folded, shown, List.append_nil]
            exact spread
          rw [whole]
          exact ⟨ts, beyond.symm, .closed k t (qs ++ []) closing others⟩
        | cons v us' =>
          obtain ⟨rfl, _⟩ := List.cons.inj after₁
          have head := later.head joins fit.1.2.2.2.drop
          rw [closes] at head
          exact absurd head (closing_not_head k)

/-- A part is replaced where it begins. -/
theorem Stands.replace_first (joins : Joins combine) {name : String} (reduces : Reduces name part)
    (stands : Stands combine around us ps) (fit : Fit around ps) (follows : Follows around rest)
    {ys : List Token} (same : us ++ rest = part ++ ys) (visible : us ≠ []) :
    ∃ us', ys = us' ++ rest ∧ Stands combine around (combine name part :: us') ps := by
  cases reduces with
  | full k content known names =>
    obtain ⟨first, part₁, rfl, opens, names⟩ := List.map_eq_cons_iff.1 names
    obtain ⟨middle, part₂, rfl, joined, names⟩ := List.map_eq_cons_iff.1 names
    obtain ⟨last, part₃, rfl, closes, names⟩ := List.map_eq_cons_iff.1 names
    cases List.map_eq_nil_iff.1 names
    exact stands.replace_full joins known opens joined closes fit same visible
  | empty k names =>
    obtain ⟨first, part₁, rfl, opens, names⟩ := List.map_eq_cons_iff.1 names
    obtain ⟨last, part₂, rfl, closes, names⟩ := List.map_eq_cons_iff.1 names
    cases List.map_eq_nil_iff.1 names
    exact stands.replace_empty joins opens closes fit follows same visible
  | run k content known nonempty items =>
    exact stands.replace_run joins known nonempty items fit follows same visible

theorem closing_not_opening {k : Group} (bracketed : k.isQuoted = false) (k' : Group) :
    k'.opening ≠ k.closing := by
  cases k <;> first | (cases k' <;> decide) | cases bracketed

/-- What is replaced does not begin with a closing bracket. -/
theorem Reduces.not_closing {name : String} (reduces : Reduces name part) {k : Group}
    (bracketed : k.isQuoted = false) {closing : Token} (closes : closing.name = k.closing)
    (ys : List Token) : closing :: rest ≠ part ++ ys := by
  intro same
  cases reduces with
  | full k' content known names =>
    obtain ⟨first, part, rfl, opens, _⟩ := List.map_eq_cons_iff.1 names
    obtain ⟨rfl, _⟩ := List.cons.inj same
    exact closing_not_opening bracketed k' (opens.symm.trans closes)
  | empty k' names =>
    obtain ⟨first, part, rfl, opens, _⟩ := List.map_eq_cons_iff.1 names
    obtain ⟨rfl, _⟩ := List.cons.inj same
    exact closing_not_opening bracketed k' (opens.symm.trans closes)
  | run k' content known nonempty items =>
    cases part with
    | nil => exact nonempty rfl
    | cons t part =>
      obtain ⟨rfl, _⟩ := List.cons.inj same
      have item := items closing List.mem_cons_self
      rw [closes] at item
      exact closing_not_item k known item

/-- A part is replaced at the first token, or among those after it. -/
theorem Stands.replace_cons (joins : Joins combine) {name : String} (reduces : Reduces name part)
    (stands : Stands combine around (t :: us) ps) (fit : Fit around ps)
    (follows : Follows around rest) {xs ys : List Token} (same : t :: us ++ rest = xs ++ (part ++ ys))
    (few : xs.length < (t :: us).length)
    (later : ∀ {xs}, us ++ rest = xs ++ (part ++ ys) → xs.length < us.length →
      ∃ us', xs ++ combine name part :: ys = us' ++ rest ∧ Stands combine around (t :: us') ps) :
    ∃ us', xs ++ combine name part :: ys = us' ++ rest ∧ Stands combine around us' ps := by
  cases xs with
  | nil =>
    obtain ⟨us', rfl, stands⟩ :=
      stands.replace_first joins reduces fit follows same (List.cons_ne_nil _ _)
    exact ⟨_, rfl, stands⟩
  | cons x xs =>
    obtain ⟨rfl, after⟩ := List.cons.inj same
    obtain ⟨us', replaced, stands⟩ := later after (Nat.lt_of_succ_lt_succ few)
    exact ⟨t :: us', congrArg (t :: ·) replaced, stands⟩

/-- A fold that replaces a part somewhere keeps what the tokens stand for. -/
theorem Stands.replace (joins : Joins combine) {name : String} (reduces : Reduces name part)
    (stands : Stands combine around us ps) : Fit around ps → ∀ {xs ys rest : List Token},
      Follows around rest → us ++ rest = xs ++ (part ++ ys) → xs.length < us.length →
        ∃ us', xs ++ combine name part :: ys = us' ++ rest ∧ Stands combine around us' ps := by
  induction stands with
  | nil => exact fun _ _ _ _ _ _ few => absurd few (Nat.not_lt_zero _)
  | token t others ih =>
    intro fit xs ys rest follows same few
    refine (Stands.token t others).replace_cons joins reduces fit follows same few
      fun same few => ?_
    obtain ⟨us', later, stands⟩ := ih fit.2.2 follows same few
    exact ⟨us', later, .token t stands⟩
  | closed k opening inside closing others ih =>
    intro fit xs ys rest follows same few
    refine (Stands.closed k opening inside closing others).replace_cons joins reduces fit follows
      same few fun same few => ?_
    obtain ⟨us', later, stands⟩ := ih fit.2.2 follows same few
    exact ⟨us', later, .closed k opening inside closing stands⟩
  | chunk content known qs nonempty others ih =>
    intro fit xs ys rest follows same few
    refine (Stands.chunk content known qs nonempty others).replace_cons joins reduces fit follows
      same few fun same few => ?_
    obtain ⟨us', later, stands⟩ := ih fit.drop follows same few
    exact ⟨us', later, .chunk content known qs nonempty stands⟩
  | @opened around us ts inside ps k opening closing bracketed within others inner outer =>
    intro fit xs ys rest follows same few
    refine (Stands.opened k opening closing bracketed within others).replace_cons joins reduces fit
      follows same few fun {xs} same few => ?_
    have spread : us ++ closing :: (ts ++ rest) = xs ++ (part ++ ys) := by
      rw [← same]
      simp
    have bracket : Follows (some k) (closing :: (ts ++ rest)) := by
      intro t first
      cases first
      exact ⟨k, rfl, fit.1.2.2.1⟩
    -- The part begins inside the group, or at its closing bracket, or after it.
    by_cases early : xs.length < us.length
    · obtain ⟨us', later, stands⟩ := inner fit.1.2.2.2 bracket spread early
      refine ⟨us' ++ closing :: ts, ?_, .opened k opening closing bracketed stands others⟩
      rw [later]
      simp
    · obtain ⟨xs, rfl⟩ := List.prefix_of_prefix_length_le (List.prefix_append us _)
        (spread ▸ List.prefix_append xs _) (Nat.not_lt.1 early)
      rw [List.append_assoc] at spread
      have beyond := List.append_cancel_left spread
      cases xs with
      | nil => exact absurd beyond (reduces.not_closing bracketed fit.1.2.2.1 _)
      | cons x xs =>
        obtain ⟨rfl, tail⟩ := List.cons.inj beyond
        have few : xs.length < ts.length := by
          simp at few
          omega
        obtain ⟨us', later, stands⟩ := outer fit.2.2 follows tail few
        refine ⟨us ++ closing :: us', ?_, .opened k opening closing bracketed within stands⟩
        simp [later]

theorem Reduces.nonempty {name : String} (reduces : Reduces name part) : part ≠ [] := by
  cases reduces with
  | full k content known names => rintro rfl; cases names
  | empty k names => rintro rfl; cases names
  | run k content known nonempty items => exact nonempty

theorem reduces_of_stretch {name : String} {terms : List String}
    (listed : Fold.concatenation name terms ∈ standardFolds) (names : part.map (·.name) = terms) :
    Reduces name part := by
  simp only [standardFolds, List.mem_cons, reduceCtorEq, false_or, or_false, List.not_mem_nil,
    Fold.concatenation.injEq] at listed
  rcases listed with ⟨rfl, rfl⟩ | ⟨rfl, rfl⟩ | ⟨rfl, rfl⟩ | ⟨rfl, rfl⟩ | ⟨rfl, rfl⟩ | ⟨rfl, rfl⟩ |
    ⟨rfl, rfl⟩ | ⟨rfl, rfl⟩ | ⟨rfl, rfl⟩
  · exact .full .string "string_content" rfl names
  · exact .empty .string names
  · exact .full .itemString "string_content" rfl names
  · exact .empty .itemString names
  · exact .full .itemArray "array_items" rfl names
  · exact .empty .itemArray names
  · exact .full .array "array_items" rfl names
  · exact .empty .array names
  · exact .empty .object names

theorem reduces_of_run {name : String} {terms : List String}
    (listed : Fold.alternation name terms ∈ standardFolds) (nonempty : part ≠ [])
    (items : ∀ t ∈ part, t.name ∈ name :: terms) : Reduces name part := by
  simp only [standardFolds, List.mem_cons, reduceCtorEq, false_or, or_false, List.not_mem_nil,
    Fold.alternation.injEq] at listed
  rcases listed with ⟨rfl, rfl⟩ | ⟨rfl, rfl⟩
  · exact .run .string "string_content" rfl nonempty items
  · exact .run .array "array_items" rfl nonempty items

theorem reduces_of_fits {name : String} (fits : Fold.Fits standardFolds name part) :
    Reduces name part := by
  obtain ⟨fold, listed, rfl, replaces⟩ := fits
  cases fold with
  | alternation name terms =>
    obtain ⟨nonempty, belongs, _⟩ := replaces
    exact reduces_of_run listed nonempty fun t member => List.mem_cons.2 (belongs t member)
  | concatenation name terms => exact reduces_of_stretch listed replaces.2.2

/-- Whatever the folds of the language combine, the tokens stand for the same pieces. -/
theorem Stands.combines (joins : Joins combine) {n : Nat} (fit : Fit none ps)
    (combines : Fold.Combines combine (Fold.Fits standardFolds) ts n us)
    (stands : Stands combine none ts ps) : Stands combine none us ps := by
  refine combines.keeps (P := fun us => Stands combine none us ps) ?_ stands
  intro xs part ys name fits stands
  have reduces := reduces_of_fits fits
  have few : xs.length < (xs ++ (part ++ ys)).length := by
    have visible := List.length_pos_iff.2 reduces.nonempty
    simp only [List.length_append]
    omega
  have whole : (xs ++ (part ++ ys)) ++ [] = xs ++ (part ++ ys) := List.append_nil _
  obtain ⟨us', same, stands⟩ := stands.replace joins reduces fit (Follows.nil none) whole few
  rw [same, List.append_nil]
  exact stands

/-- Tokens in which there is nothing left to fold. -/
structure Stuck (ts : List Token) : Prop where
  stretches : ∀ name terms, Fold.concatenation name terms ∈ standardFolds →
    ∀ xs part ys, ts = xs ++ (part ++ ys) → part.map (·.name) ≠ terms
  runs : ∀ name terms, Fold.alternation name terms ∈ standardFolds →
    Fold.Loose name (fun t => t.name == name || terms.contains t.name) ts

theorem stuck_of_apply (stuck : ∀ fold ∈ standardFolds, (fold.apply combine ts).2 = 0) :
    Stuck ts := by
  constructor
  · intro name terms listed
    have proper : (terms.isEmpty || terms == [name]) = false := by
      have checked : ∀ fold ∈ standardFolds, ∀ name terms, fold = .concatenation name terms →
          (terms.isEmpty || terms == [name]) = false := by
        simp [standardFolds]
      exact checked _ listed name terms rfl
    have unfolded := stuck _ listed
    rw [Fold.apply, if_neg (by simp [proper])] at unfolded
    have visible : terms ≠ [] := by
      rintro rfl
      cases proper
    exact (Fold.foldStretches_stuck visible unfolded).2
  · intro name terms listed
    exact (Fold.foldRuns_stuck (List.forall_mem_nil _) (stuck _ listed)).2

theorem Stuck.tail {t : Token} {ts : List Token} (stuck : Stuck (t :: ts)) : Stuck ts where
  stretches name terms listed before part after same :=
    stuck.stretches name terms listed (t :: before) part after (by rw [same, List.cons_append])
  runs name terms listed := (stuck.runs name terms listed).2

theorem empty_listed (k : Group) : .concatenation k.empty [k.opening, k.closing] ∈ standardFolds := by
  cases k <;> decide

theorem full_listed {k : Group} {content : String} (known : k.content? = some content) :
    .concatenation k.full [k.opening, content, k.closing] ∈ standardFolds := by
  cases k <;> cases known <;> decide

theorem run_listed {k : Group} {content : String} (known : k.content? = some content) :
    .alternation content k.items ∈ standardFolds := by
  cases k <;> cases known <;> decide

/-- No group is open where there is nothing left to fold. -/
theorem Stuck.not_open {k : Group} {opening closing : Token} (opens : opening.name = k.opening)
    (closes : closing.name = k.closing)
    (stuck : Stuck (opening :: (us ++ closing :: rest)))
    (items : ∀ t ∈ us, ∃ content, k.content? = some content ∧ t.name ∈ content :: k.items) : False := by
  cases us with
  | nil =>
    refine stuck.stretches _ _ (empty_listed k) [] [opening, closing] rest rfl ?_
    rw [List.map_cons, List.map_cons, opens, closes, List.map_nil]
  | cons u us =>
    obtain ⟨content, known, item⟩ := items u List.mem_cons_self
    have belongs : ∀ t : Token, t.name ∈ content :: k.items →
        (t.name == content || k.items.contains t.name) = true := by
      intro t item
      simpa using item
    have loose := (stuck.runs content k.items (run_listed known)).2.1 (belongs u item)
    cases us with
    | nil =>
      refine stuck.stretches _ _ (full_listed known) [] [opening, u, closing] rest rfl ?_
      rw [List.map_cons, List.map_cons, List.map_cons, opens, loose.1, closes, List.map_nil]
    | cons v us =>
      obtain ⟨content', known', item'⟩ := items v (by simp)
      cases known.symm.trans known'
      have apart := loose.2 v rfl
      exact absurd ((belongs v item').symm.trans apart) (by decide)

/-- The tokens where nothing is left to fold. -/
def Done (combine : Combiner) : Option Group → List Token → List Piece → Prop
  | none, us, ps => us = ps.map (Piece.folded combine)
  | some k, us, _ => ∀ t ∈ us, ∃ content, k.content? = some content ∧ t.name ∈ content :: k.items

theorem token_item {k : Group} {n : String} (listed : n ∈ tokensIn (some k)) :
    ∃ content, k.content? = some content ∧ n ∈ content :: k.items := by
  have checked : ∀ n ∈ tokensIn (some k), ∃ content ∈ k.content?, n ∈ content :: k.items := by
    cases k <;> decide
  exact checked n listed

theorem group_item {k k' : Group} (among : k' ∈ groupsIn (some k)) (hollow : Bool) :
    ∃ content, k.content? = some content ∧
      (if hollow then k'.empty else k'.full) ∈ content :: k.items := by
  have checked : ∀ k' ∈ groupsIn (some k), ∃ content ∈ k.content?,
      (if hollow then k'.empty else k'.full) ∈ content :: k.items := by
    cases k <;> cases hollow <;> decide
  exact checked k' among

theorem Stands.done (joins : Joins combine) (stands : Stands combine around us ps) :
    Fit around ps → ∀ {rest : List Token}, Stuck (us ++ rest) → Done combine around us ps := by
  induction stands with
  | @nil around =>
    intro _ _ _
    cases around
    · rfl
    · exact List.forall_mem_nil _
  | @token around ts ps t others ih =>
    intro fit rest stuck
    have later := ih fit.2.2 (Stuck.tail stuck)
    cases around with
    | none => exact congrArg (t :: ·) later
    | some k => exact List.forall_mem_cons.2 ⟨token_item fit.1, later⟩
  | @opened around us ts inside ps k opening closing bracketed within others inner outer =>
    intro fit rest stuck
    rw [List.cons_append, List.append_assoc] at stuck
    have items := inner fit.1.2.2.2 (Stuck.tail stuck)
    exact (stuck.not_open fit.1.2.1 fit.1.2.2.1 items).elim
  | @closed around ts ps k opening inside closing others ih =>
    intro fit rest stuck
    have later := ih fit.2.2 (Stuck.tail stuck)
    cases around with
    | none => exact congrArg (_ :: ·) later
    | some k' =>
      refine List.forall_mem_cons.2 ⟨?_, later⟩
      rw [folded_name joins]
      exact group_item fit.1.1 _
  | @chunk k ts ps content known qs nonempty others ih =>
    intro fit rest stuck
    have later := ih fit.drop (Stuck.tail stuck)
    refine List.forall_mem_cons.2 ⟨⟨content, known, ?_⟩, later⟩
    rw [joins.name]
    exact List.mem_cons_self

/-- Folding makes one token of each group. -/
theorem run_rawAll (joins : Joins combine) {l : Language} (standard : IsStandard l)
    (fit : Fit none ps) :
    l.plan.run l.tokens combine (rawAll ps) = .ok (ps.map (Piece.folded combine)) := by
  obtain ⟨n, done, _, settles⟩ := acyclic_standardFolds.settles joins.name (rawAll ps)
  obtain ⟨shut, all, strings⟩ := applyEach_rawAll joins fit
  have first : Stands combine none (Fold.applyEach combine standardFolds (rawAll ps)).1 ps := by
    rw [strings]
    exact (stands_midwayAll combine all none ps).combines joins fit
      (Fold.applyEach_combines (fun fold listed => List.mem_of_mem_drop listed) _)
  have stands : Stands combine none done ps :=
    settles.keeps (P := fun us => Stands combine none us ps)
      (fun us stands => stands.combines joins fit (Fold.round_combines standardFolds us)) first
  have settled := stuck_of_apply settles.stuck.2
  rw [← List.append_nil done] at settled
  rw [(FoldPlan.run_eq_ok_iff joins.name standard.folds).2 ⟨n, settles⟩, stands.done joins fit settled]

end AttrGrammar.Procedure
