import RepeatedAddition.Config.Source

/-!
# The name of a source

A source has a name: the path of its file, or the index of its snippet.  The reader puts the name
into every place that it gives, and looks at places in two spots only, where it asks whether it has
been at a place before and which of two places comes first.  All places that it compares are in the
same source, so the name never decides anything.

The argument is a simulation.  `unnamed` takes the name out of places, and with them out of tokens,
problems and expressions; `Forgets` says that a computation of the reader on a state without names
does what it does on the state with names, and gives the same without names.  Each function of the
reader forgets the name if the functions that it calls do.

* `Token.ofSource_unnamed`: the tokens of a source have its name in their places and nowhere else.
* `Forgets`, with its rules: a computation of the reader does not look at the name.
* `forgetsAt`: no function that reads by descent does.
* `toOption_read_unnamed`: without names, a source is read as the same expression under every name.
-/

namespace RepeatedAddition
namespace Config

/-! ## Without names -/

/-- A place without the name of its source. -/
def Position.unnamed (p : Position) : Position := ⟨[], p.line, p.column⟩

/-- Places in one source are told apart without its name. -/
theorem Position.unnamed_inj {name : Text} {p q : Position} (hp : p.source = name)
    (hq : q.source = name) :
    p.unnamed = q.unnamed ↔ p = q := by
  obtain ⟨source, line, column⟩ := p
  obtain ⟨source', line', column'⟩ := q
  subst hp
  subst hq
  simp [unnamed]

/-- Which of two places in one source comes first is told without its name. -/
theorem Position.order_unnamed {name : Text} {p q : Position} (hp : p.source = name)
    (hq : q.source = name) :
    p.unnamed.order q.unnamed = p.order q := by
  have hsame (t : Text) : textOrder t t = .eq := by simp [textOrder, compareOfLessAndEq]
  unfold order
  rw [hp, hq, hsame]
  rfl

/-- A problem without the names of its places. -/
def Problem.unnamed (p : Problem) : Problem :=
  { p with decisive := p.decisive.map Position.unnamed, related := p.related.map Position.unnamed }

/-- A token without the name of its source. -/
def Token.unnamed (t : Token) : Token := ⟨t.lexeme, t.place.unnamed, t.problems.map Problem.unnamed⟩

theorem Token.lexeme_unnamed (t : Token) : t.unnamed.lexeme = t.lexeme := rfl

theorem Token.place_unnamed (t : Token) : t.unnamed.place = t.place.unnamed := rfl

mutual

/-- An expression without the names of its places. -/
def Expr.unnamed : Expr → Expr
  | .literal p a => .literal p.unnamed a
  | .faulty p message => .faulty p.unnamed message
  | .top p => .top p.unnamed
  | .bottom p => .bottom p.unnamed
  | .name p n => .name p.unnamed n
  | .select p e label => .select p.unnamed (Expr.unnamed e) label
  | .group p e => .group p.unnamed (Expr.unnamed e)
  | .signed p sign e => .signed p.unnamed sign (Expr.unnamed e)
  | .arithmetic op l r => .arithmetic op (Expr.unnamed l) (Expr.unnamed r)
  | .limit p bound e => .limit p.unnamed bound (Expr.unnamed e)
  | .meet l r => .meet (Expr.unnamed l) (Expr.unnamed r)
  | .either l r => .either (Expr.unnamed l) (Expr.unnamed r)
  | .preferred p e => .preferred p.unnamed (Expr.unnamed e)
  | .struct p ds => .struct p.unnamed (unnamedDecls ds)
  | .list p es tail => .list p.unnamed (unnamedItems es) (unnamedTail tail)

/-- A declaration without the names of its places. -/
def Decl.unnamed : Decl → Decl
  | .field label bindable optional e => .field label bindable optional (Expr.unnamed e)
  | .embedded e => .embedded (Expr.unnamed e)
  | .faulty p message => .faulty p.unnamed message
  | .ellipsis => .ellipsis

/-- Declarations without the names of their places. -/
def unnamedDecls : List Decl → List Decl
  | [] => []
  | d :: ds => Decl.unnamed d :: unnamedDecls ds

/-- Items without the names of their places. -/
def unnamedItems : List Expr → List Expr
  | [] => []
  | e :: es => Expr.unnamed e :: unnamedItems es

/-- A tail without the names of its places. -/
def unnamedTail : Tail Expr → Tail Expr
  | .closed => .closed
  | .any => .any
  | .each e => .each (Expr.unnamed e)

end

theorem unnamedDecls_eq (ds : List Decl) : unnamedDecls ds = ds.map Decl.unnamed := by
  induction ds with
  | nil => rfl
  | cons d ds ih => rw [unnamedDecls, ih, List.map_cons]

theorem unnamedItems_eq (es : List Expr) : unnamedItems es = es.map Expr.unnamed := by
  induction es with
  | nil => rfl
  | cons e es ih => rw [unnamedItems, ih, List.map_cons]

theorem Expr.place_unnamed (e : Expr) : e.unnamed.place = e.place.unnamed := by
  match e with
  | .literal _ _ | .faulty _ _ | .top _ | .bottom _ | .name _ _ | .select _ _ _ | .group _ _
  | .signed _ _ _
  | .limit _ _ _ | .preferred _ _ | .struct _ _ | .list _ _ _ => rfl
  | .meet l _ | .either l _ | .arithmetic _ l _ => exact place_unnamed l
termination_by structural e

/-! ## Tokens -/

/-- A cursor without the name of its source. -/
def Cursor.unnamed (c : Cursor) : Cursor := ⟨c.rest, c.place.unnamed⟩

theorem Cursor.step_unnamed (p : Position) (c : Char) (rest : List Char) :
    step p.unnamed c rest = (step p c rest).unnamed := by
  unfold step
  split <;> rfl

theorem Cursor.source_step (p : Position) (c : Char) (rest : List Char) :
    (step p c rest).source = p.source := by
  unfold step
  split <;> rfl

theorem Cursor.skip_unnamed (n : Nat) (c : Cursor) : skip n c.unnamed = (skip n c).unnamed := by
  induction n generalizing c with
  | zero => rfl
  | succ n ih =>
    obtain ⟨rest, place⟩ := c
    cases rest with
    | nil => rfl
    | cons ch rest =>
      show skip n ⟨rest, step place.unnamed ch rest⟩ = _
      rw [step_unnamed]
      exact ih ⟨rest, step place ch rest⟩

theorem Cursor.source_skip (n : Nat) (c : Cursor) : (skip n c).place.source = c.place.source := by
  induction n generalizing c with
  | zero => rfl
  | succ n ih =>
    obtain ⟨rest, place⟩ := c
    cases rest with
    | nil => rfl
    | cons ch rest => exact (ih _).trans (source_step place ch rest)

theorem Cursor.problem_unnamed (c : Cursor) (fault : Numeral.Fault) :
    c.unnamed.problem fault = (c.problem fault).unnamed := by
  unfold problem
  rw [skip_unnamed]
  rfl

namespace Token

/-- The tokens from a cursor on have the name of the source in their places and nowhere else. -/
theorem scan_unnamed (limit : Nat) (pending : Bool) (c : Cursor) :
    scan limit pending c.unnamed = (scan limit pending c).map unnamed := by
  have hrest (c : Cursor) : c.unnamed.rest = c.rest := rfl
  have hplace (c : Cursor) : c.unnamed.place = c.place.unnamed := rfl
  have hproblem (c : Cursor) : c.unnamed.problem = Problem.unnamed ∘ c.problem :=
    funext c.problem_unnamed
  -- The scanner asks for the characters at the cursor, so both sides are in the same case.
  fun_induction scan limit pending c <;>
    simp_all +zetaDelta [scan, Cursor.skip_unnamed, unnamed]

theorem source_of_mem_scan {limit : Nat} {pending : Bool} {c : Cursor} {t : Token}
    (h : t ∈ scan limit pending c) :
    t.place.source = c.place.source := by
  fun_induction scan limit pending c <;> grind [Cursor.source_skip]

/-- The tokens that stay before a character that may stand nowhere. -/
def before (place : Position) (ts : List Token) : List Token :=
  ts.filter fun t => t.lexeme != .finish && !(t.lexeme == .lineEnd && t.place = place)

/-- The tokens in the stead of a character that may stand nowhere. -/
def forbidden (place : Position) (message : String) : List Token :=
  [⟨.illegal, place, [⟨[], Text.lit message, some place, []⟩]⟩, ⟨.finish, place, []⟩]

/-- A source is scanned from its head, up to its end or up to a character that may stand nowhere.
The name is in the place of the head. -/
theorem exists_ofSource_eq (text : Text) : ∃ (cs : List Char) (column : Nat),
    (∀ name, ofSource name text = scan (cs.length + 1) false ⟨cs, ⟨name, 1, column⟩⟩) ∨
    ∃ message, ∀ name, ofSource name text =
      before (Cursor.skip cs.length ⟨cs, ⟨name, 1, column⟩⟩).place
        (scan (cs.length + 1) false ⟨cs, ⟨name, 1, column⟩⟩) ++
        forbidden (Cursor.skip cs.length ⟨cs, ⟨name, 1, column⟩⟩).place message := by
  dsimp only [ofSource]
  obtain ⟨cs, fault⟩ :=
    characters (if startsWithMark (Utf8.pieces text) then (Utf8.pieces text).drop 1 else
      Utf8.pieces text)
  refine ⟨cs, if startsWithMark (Utf8.pieces text) then 4 else 1, ?_⟩
  cases fault with
  | none => exact .inl fun _ => rfl
  | some message => exact .inr ⟨message, fun _ => rfl⟩

theorem before_unnamed {place : Position} {ts : List Token}
    (h : ∀ t ∈ ts, t.place.source = place.source) :
    before place.unnamed (ts.map unnamed) = (before place ts).map unnamed := by
  unfold before
  rw [List.filter_map]
  congr 1
  refine List.filter_congr fun t ht => ?_
  have hiff : (t.place.unnamed = place.unnamed) = (t.place = place) :=
    propext (Position.unnamed_inj (h t ht) rfl)
  show (t.lexeme != .finish &&
    !(t.lexeme == .lineEnd && decide (t.place.unnamed = place.unnamed))) = _
  simp only [hiff]

/-- **The tokens of a source have its name in their places and nowhere else.** -/
theorem ofSource_unnamed (name text : Text) :
    ofSource [] text = (ofSource name text).map unnamed := by
  obtain ⟨cs, column, hwhole | ⟨message, hcut⟩⟩ := exists_ofSource_eq text
  · rw [hwhole, hwhole]
    exact scan_unnamed _ _ ⟨cs, ⟨name, 1, column⟩⟩
  · have hsource : ∀ t ∈ scan (cs.length + 1) false ⟨cs, ⟨name, 1, column⟩⟩,
        t.place.source = (Cursor.skip cs.length ⟨cs, ⟨name, 1, column⟩⟩).place.source := by
      intro t ht
      rw [source_of_mem_scan ht, Cursor.source_skip]
    rw [hcut, hcut, List.map_append, ← before_unnamed hsource, ← scan_unnamed]
    have hskip := Cursor.skip_unnamed cs.length ⟨cs, ⟨name, 1, column⟩⟩
    show before (Cursor.skip cs.length (Cursor.unnamed ⟨cs, ⟨name, 1, column⟩⟩)).place _ ++
      forbidden (Cursor.skip cs.length (Cursor.unnamed ⟨cs, ⟨name, 1, column⟩⟩)).place message = _
    rw [hskip]
    rfl

theorem source_of_mem_ofSource {name text : Text} {t : Token} (h : t ∈ ofSource name text) :
    t.place.source = name := by
  obtain ⟨cs, column, hwhole | ⟨message, hcut⟩⟩ := exists_ofSource_eq text
  · rw [hwhole] at h
    exact source_of_mem_scan h
  · rw [hcut, List.mem_append] at h
    rcases h with h | h
    · exact source_of_mem_scan (List.mem_filter.mp h).1
    · have hplace : t.place = (Cursor.skip cs.length ⟨cs, ⟨name, 1, column⟩⟩).place := by
        simp only [forbidden, List.mem_cons, List.not_mem_nil, or_false] at h
        rcases h with rfl | rfl <;> rfl
      rw [hplace, Cursor.source_skip]

end Token

/-! ## The reader forgets the name -/

namespace Source

/-- A state of the reader without the name of its source. -/
def State.unnamed (s : State) : State :=
  { s with
    tokens := s.tokens.map Token.unnamed
    problems := s.problems.map Problem.unnamed
    resumedAt := s.resumedAt.map Position.unnamed }

/-- The places that a state of the reader compares are in a named source. -/
structure State.IsIn (name : Text) (s : State) : Prop where
  tokens : ∀ t ∈ s.tokens, t.place.source = name
  resumedAt : ∀ p ∈ s.resumedAt, p.source = name

namespace State

variable {name : Text} {s : State}

theorem current_unnamed (s : State) : s.unnamed.current = s.current.unnamed := by
  obtain ⟨tokens, problems, stopped, resumedAt, resumed⟩ := s
  cases tokens with
  | nil => rfl
  | cons t ts => rfl

theorem IsIn.current (h : s.IsIn name) (hfinish : s.current.lexeme ≠ .finish) :
    s.current.place.source = name := by
  obtain ⟨tokens, problems, stopped, resumedAt, resumed⟩ := s
  cases tokens with
  | nil => exact absurd rfl hfinish
  | cons t ts => exact h.tokens t List.mem_cons_self

theorem advance_unnamed (s : State) : s.unnamed.advance = s.advance.unnamed := by
  obtain ⟨tokens, problems, stopped, resumedAt, resumed⟩ := s
  match tokens with
  | [] | [_] => rfl
  | _ :: t :: rest => cases stopped <;> simp [advance, unnamed, Token.unnamed]

theorem IsIn.advance (h : s.IsIn name) : s.advance.IsIn name := by
  obtain ⟨tokens, problems, stopped, resumedAt, resumed⟩ := s
  match tokens, h with
  | [], h | [_], h => exact h
  | _ :: t :: rest, h => exact ⟨fun u hu => h.tokens u (List.mem_cons_of_mem _ hu), h.resumedAt⟩

theorem report_unnamed (s : State) (place : Position) (message : Text) :
    s.unnamed.report place.unnamed message = (s.report place message).unnamed := by
  have hline : (s.unnamed.problems.head?.bind Problem.decisive).any (·.line = place.line) =
      (s.problems.head?.bind Problem.decisive).any (·.line = place.line) := by
    obtain ⟨tokens, problems, stopped, resumedAt, resumed⟩ := s
    match problems with
    | [] | ⟨_, _, none, _⟩ :: _ | ⟨_, _, some _, _⟩ :: _ => rfl
  have hlength : s.unnamed.problems.length = s.problems.length := List.length_map _
  unfold report
  show (if s.stopped ||
    (s.unnamed.problems.head?.bind Problem.decisive).any (·.line = place.line) then _ else _) = _
  rw [hline, hlength]
  split
  · rfl
  · split <;> rfl

theorem IsIn.report (h : s.IsIn name) (place : Position) (message : Text) :
    (s.report place message).IsIn name := by
  unfold State.report
  split
  · exact h
  · split <;> exact ⟨h.tokens, h.resumedAt⟩

theorem unexpected_unnamed (s : State) (wanted : String) :
    s.unnamed.unexpected wanted = (s.unexpected wanted).unnamed := by
  unfold unexpected
  rw [current_unnamed]
  exact s.report_unnamed _ _

theorem IsIn.unexpected (h : s.IsIn name) (wanted : String) : (s.unexpected wanted).IsIn name :=
  h.report _ _

/-- The state in which reading is taken up at the next token, if it is. -/
def takenUp? (s : State) : Option State :=
  if isFinish s.current then some s
  else if isComma s.current then
    match s.resumedAt with
    | none => some { s with resumedAt := some s.current.place, resumed := 0 }
    | some place =>
      if place = s.current.place && s.resumed < 10 then some { s with resumed := s.resumed + 1 }
      else if place.order s.current.place == .lt then
        some { s with resumedAt := some s.current.place, resumed := 0 }
      else none
  else none

theorem resume_succ (limit : Nat) (s : State) :
    s.resume (limit + 1) = s.takenUp?.getD (s.advance.resume limit) := by
  unfold takenUp? isFinish isComma
  rw [State.resume]
  cases hlexeme : s.current.lexeme with
  | comma | lineEnd =>
    cases hplace : s.resumedAt with
    | none => rfl
    | some place =>
      simp only [beq_self_eq_true, Bool.or_true, Bool.true_or, if_true]
      split
      · rfl
      · split <;> rfl
  | _ => rfl

/-- Where reading was last taken up and the next comma are in the same source, so which comes first
is told without its name. -/
theorem IsIn.takenUp? (h : s.IsIn name) :
    (∀ s' ∈ s.takenUp?, s'.IsIn name) ∧ s.unnamed.takenUp? = s.takenUp?.map State.unnamed := by
  have hfinish : isFinish s.unnamed.current = isFinish s.current := by rw [current_unnamed]; rfl
  have hcomma : isComma s.unnamed.current = isComma s.current := by rw [current_unnamed]; rfl
  unfold State.takenUp?
  rw [hfinish, hcomma, current_unnamed]
  by_cases hend : isFinish s.current
  · simp [hend, h]
  have hin : s.current.place.source = name := h.current fun heq => hend (by rw [isFinish, heq]; rfl)
  have hhere : State.IsIn name { s with resumedAt := some s.current.place, resumed := 0 } :=
    ⟨h.tokens, by simpa using hin⟩
  by_cases hsep : isComma s.current
  · simp only [hend, hsep, Bool.false_eq_true, if_false, if_true]
    cases hplace : s.resumedAt with
    | none =>
      have hunnamed : s.unnamed.resumedAt = none := by rw [State.unnamed, hplace]; rfl
      rw [hunnamed]
      exact ⟨by simpa using hhere, rfl⟩
    | some place =>
      have hsource : place.source = name := h.resumedAt place (by rw [hplace]; rfl)
      have hunnamed : s.unnamed.resumedAt = some place.unnamed := by rw [State.unnamed, hplace]; rfl
      rw [hunnamed]
      show _ ∧ (if decide (place.unnamed = s.current.place.unnamed) && s.resumed < 10 then _
        else if place.unnamed.order s.current.place.unnamed == .lt then _ else none) = _
      simp only [Position.unnamed_inj hsource hin, Position.order_unnamed hsource hin]
      split
      · refine ⟨?_, rfl⟩
        rintro s' ⟨rfl⟩
        exact ⟨h.tokens, by simpa using hsource⟩
      · split
        · exact ⟨by simpa using hhere, rfl⟩
        · exact ⟨by simp, rfl⟩
  · simp [hend, hsep]

theorem IsIn.resume (h : s.IsIn name) (limit : Nat) :
    (s.resume limit).IsIn name ∧ s.unnamed.resume limit = (s.resume limit).unnamed := by
  induction limit generalizing s with
  | zero => exact ⟨h, rfl⟩
  | succ limit ih =>
    obtain ⟨hin, hunnamed⟩ := h.takenUp?
    rw [resume_succ, resume_succ, hunnamed, advance_unnamed]
    cases hs : s.takenUp? with
    | none => exact ih h.advance
    | some s' => exact ⟨hin s' hs, rfl⟩

end State

/-- On a state without names, a computation of the reader does what another does on the state with
names, and gives the same without names; `f` takes the names out of what the other gives. -/
def Forgets (name : Text) {α : Type} (f : α → α) (r r' : Reading α) : Prop :=
  ∀ s : State, s.IsIn name →
    (r.run s).2.IsIn name ∧ r'.run s.unnamed = (f (r.run s).1, (r.run s).2.unnamed)

section Rules

variable {name : Text} {α β : Type} {f : α → α} {g : β → β}

theorem Forgets.pure {a a' : α} (h : a' = f a) : Forgets name f (pure a) (pure a') := by
  subst h
  exact fun s hs => ⟨hs, rfl⟩

theorem Forgets.bind {r r' : Reading α} {k k' : α → Reading β} (hr : Forgets name f r r')
    (hk : ∀ a, Forgets name g (k a) (k' (f a))) : Forgets name g (r >>= k) (r' >>= k') := by
  intro s hs
  obtain ⟨hin, hrun⟩ := hr s hs
  obtain ⟨hin', hrun'⟩ := hk (r.run s).1 (r.run s).2 hin
  refine ⟨hin', ?_⟩
  rw [StateT.run_bind, hrun]
  exact hrun'

theorem Forgets.map {r r' : Reading α} {k : α → β} (hr : Forgets name f r r')
    (hk : ∀ a, k (f a) = g (k a)) :
    Forgets name g (k <$> r) (k <$> r') := by
  rw [map_eq_pure_bind, map_eq_pure_bind]
  exact hr.bind fun a => Forgets.pure (hk a)

theorem Forgets.ite {c : Prop} [Decidable c] {r r' t t' : Reading α} (hr : Forgets name f r r')
    (ht : Forgets name f t t') :
    Forgets name f (if c then r else t) (if c then r' else t') := by
  split
  · exact hr
  · exact ht

/-- What both branches go on with is gone into once. -/
theorem Forgets.ite_of_else {c : Prop} [Decidable c] {r r' t t' : Reading α}
    (ht : Forgets name f t t') (hr : Forgets name f t t' → Forgets name f r r') :
    Forgets name f (if c then r else t) (if c then r' else t') :=
  Forgets.ite (hr ht) ht

theorem Forgets.ite_bind {c : Prop} [Decidable c] {r r' t t' : Reading α} {k k' : α → Reading β}
    (hr : Forgets name f r r') (ht : Forgets name f t t')
    (hk : ∀ a, Forgets name g (k a) (k' (f a))) :
    Forgets name g (if c then r >>= k else t >>= k) (if c then r' >>= k' else t' >>= k') :=
  Forgets.ite (hr.bind hk) (ht.bind hk)

theorem forgets_modify {m m' : State → State}
    (h : ∀ s, s.IsIn name → (m s).IsIn name ∧ m' s.unnamed = (m s).unnamed) :
    Forgets name id (modify m) (modify m') := by
  intro s hs
  obtain ⟨hin, hm⟩ := h s hs
  exact ⟨hin, congrArg (Prod.mk ()) hm⟩

theorem forgets_get : Forgets name State.unnamed get get := fun _ hs => ⟨hs, rfl⟩

theorem forgets_current : Forgets name Token.unnamed current current :=
  forgets_get.bind fun s => Forgets.pure s.current_unnamed

theorem forgets_advance : Forgets name id advance advance :=
  forgets_modify fun s hs => ⟨hs.advance, s.advance_unnamed⟩

theorem forgets_report (place : Position) (message : Text) :
    Forgets name id (modify (·.report place message)) (modify (·.report place.unnamed message)) :=
  forgets_modify fun s hs => ⟨hs.report place message, s.report_unnamed place message⟩

theorem forgets_unexpected (wanted : String) :
    Forgets name id (modify (·.unexpected wanted)) (modify (·.unexpected wanted)) :=
  forgets_modify fun s hs => ⟨hs.unexpected wanted, s.unexpected_unnamed wanted⟩

end Rules

theorem forgets_expect (name : Text) (sign : String) :
    Forgets name id (expect sign) (expect sign) := by
  unfold expect
  refine forgets_current.bind fun t => ?_
  refine Forgets.ite ?_ ?_
  · exact (forgets_unexpected _).bind fun _ => forgets_advance
  · exact forgets_advance

theorem forgets_expectClosing (name : Text) (sign context : String) :
    Forgets name id (expectClosing sign context) (expectClosing sign context) := by
  unfold expectClosing
  refine forgets_current.bind fun t => Forgets.ite ?_ (forgets_expect name sign)
  exact (forgets_report _ _).bind fun _ => forgets_advance.bind fun _ => forgets_expect name sign

theorem forgets_declarationComma (name : Text) :
    Forgets name id declarationComma declarationComma := by
  unfold declarationComma
  refine forgets_current.bind fun t =>
    Forgets.ite forgets_advance (Forgets.ite ?_ (Forgets.pure rfl))
  exact (forgets_report _ _).bind fun _ => forgets_advance

theorem forgets_itemComma (name : Text) : Forgets name id itemComma itemComma := by
  rw [itemComma]
  refine forgets_current.bind fun t => ?_
  refine Forgets.ite (forgets_advance.bind fun _ => Forgets.pure rfl) ?_
  refine Forgets.ite ?_ (Forgets.ite (Forgets.pure rfl) ?_)
  · refine forgets_advance.bind fun _ => forgets_current.bind fun next =>
      Forgets.ite (Forgets.pure rfl) ?_
    exact (forgets_report _ _).bind fun _ => Forgets.pure rfl
  · exact (forgets_report _ _).bind fun _ => forgets_advance.bind fun _ => Forgets.pure rfl

theorem forgets_unread (name : Text) : Forgets name Expr.unnamed unread unread :=
  forgets_current.bind fun _ => Forgets.pure rfl

theorem forgets_checkName (name : Text) (e : Expr) :
    Forgets name id (checkName e) (checkName e.unnamed) := by
  cases e with
  | name p n => exact Forgets.ite (forgets_report _ _) (Forgets.pure rfl)
  | _ => exact Forgets.pure rfl

/-! ### What tokens and expressions are -/

theorem operator?_unnamed {l : Lexeme} {binding : Nat} {build : Expr → Expr → Expr}
    (h : operator? l = some (binding, build)) (left right : Expr) :
    (build left right).unnamed = build left.unnamed right.unnamed := by
  unfold operator? at h
  split at h <;> simp only [Option.some.injEq, Prod.mk.injEq, reduceCtorEq] at h <;>
    obtain ⟨-, rfl⟩ := h <;> rfl

theorem leading?_unnamed (p : Position) (l : Lexeme) :
    leading? p l = none ∧ leading? p.unnamed l = none ∨
    ∃ build build', leading? p l = some build ∧ leading? p.unnamed l = some build' ∧
      ∀ e, build' e.unnamed = (build e).unnamed := by
  unfold leading?
  split
  all_goals first
    | exact .inl ⟨rfl, rfl⟩
    | exact .inr ⟨_, _, rfl, rfl, fun _ => rfl⟩

theorem ofWord_unnamed (p : Position) (n : String) : ofWord p.unnamed n = (ofWord p n).unnamed := by
  unfold ofWord
  repeat' split
  all_goals rfl

theorem ofLiteral_unnamed (p : Position) (reason : Text) (result : Except Text Atom) :
    ofLiteral p.unnamed reason result = (ofLiteral p reason result).unnamed := by
  cases result <;> rfl

theorem ofToken?_unnamed (t : Token) : ofToken? t.unnamed = (ofToken? t).map Expr.unnamed := by
  unfold ofToken?
  rw [Token.lexeme_unnamed, Token.place_unnamed]
  cases t.lexeme with
  | word n => exact congrArg some (ofWord_unnamed _ n)
  | number fractional cs => exact congrArg some (ofLiteral_unnamed _ _ _)
  | string cs => exact congrArg some (ofLiteral_unnamed _ _ _)
  | _ => rfl

/-- A label without the name of its place. -/
def Head.unnamed : Head → Head
  | .label l bindable => .label l bindable
  | .faulty p message => .faulty p.unnamed message

theorem head?_unnamed (e : Expr) : head? e.unnamed = (head? e).map Head.unnamed := by
  cases e with
  | literal p a => cases a <;> rfl
  | _ => rfl

theorem Head.field_unnamed (h : Head) (optional : Bool) (e : Expr) :
    h.unnamed.field optional e.unnamed = (h.field optional e).unnamed := by
  cases h <;> rfl

/-! ### Reading by descent -/

/-- The functions that read by descent forget the name, if they go down a given number of steps. -/
structure ForgetsAt (name : Text) (n : Nat) : Prop where
  expression : ∀ strength, Forgets name Expr.unnamed (expression n strength) (expression n strength)
  operators : ∀ strength e,
    Forgets name Expr.unnamed (operators n strength e) (operators n strength e.unnamed)
  operand : Forgets name Expr.unnamed (operand n) (operand n)
  selections : ∀ e, Forgets name Expr.unnamed (selections n e) (selections n e.unnamed)
  primary : Forgets name Expr.unnamed (primary n) (primary n)
  listItems : Forgets name (Prod.map unnamedItems unnamedTail) (listItems n) (listItems n)
  listTail : Forgets name unnamedTail (listTail n) (listTail n)
  declarations : Forgets name unnamedDecls (declarations n) (declarations n)
  declaration : Forgets name (Option.map Decl.unnamed) (declaration n) (declaration n)
  fieldValue : Forgets name Expr.unnamed (fieldValue n) (fieldValue n)

theorem ForgetsAt.zero (name : Text) : ForgetsAt name 0 where
  expression _ := by rw [Source.expression]; exact forgets_unread name
  operators _ e := by rw [Source.operators, Source.operators]; exact Forgets.pure rfl
  operand := by rw [Source.operand]; exact forgets_unread name
  selections e := by rw [Source.selections, Source.selections]; exact Forgets.pure rfl
  primary := by rw [Source.primary]; exact forgets_unread name
  listItems := by rw [Source.listItems]; exact Forgets.pure rfl
  listTail := by rw [Source.listTail]; exact Forgets.pure rfl
  declarations := by rw [Source.declarations]; exact Forgets.pure rfl
  declaration := by rw [Source.declaration]; exact Forgets.pure rfl
  fieldValue := by rw [Source.fieldValue]; exact forgets_unread name

namespace ForgetsAt

variable {name : Text} {n : Nat}

theorem operators_succ (h : ForgetsAt name n) (strength : Nat) (e : Expr) :
    Forgets name Expr.unnamed (Source.operators (n + 1) strength e)
      (Source.operators (n + 1) strength e.unnamed) := by
  rw [Source.operators, Source.operators]
  refine forgets_current.bind fun t => ?_
  rw [Token.lexeme_unnamed]
  cases hop : operator? t.lexeme with
  | none => exact Forgets.pure rfl
  | some found =>
    obtain ⟨binding, build⟩ := found
    refine Forgets.ite (Forgets.pure rfl) (forgets_advance.bind fun _ =>
      (h.expression _).bind fun right => ?_)
    rw [← operator?_unnamed hop]
    exact h.operators strength (build e right)

theorem operand_succ (h : ForgetsAt name n) :
    Forgets name Expr.unnamed (Source.operand (n + 1)) (Source.operand (n + 1)) := by
  rw [Source.operand]
  refine forgets_current.bind fun t => ?_
  rw [Token.lexeme_unnamed, Token.place_unnamed]
  obtain ⟨hnone, hnone'⟩ | ⟨build, build', hsome, hsome', hbuild⟩ :=
    leading?_unnamed t.place t.lexeme
  · rw [hnone, hnone']
    exact h.primary.bind fun e => h.selections e
  · rw [hsome, hsome']
    exact forgets_advance.bind fun _ => h.operand.bind fun e => Forgets.pure (hbuild e)

theorem selections_succ (h : ForgetsAt name n) (e : Expr) :
    Forgets name Expr.unnamed (Source.selections (n + 1) e)
      (Source.selections (n + 1) e.unnamed) := by
  rw [Source.selections, Source.selections]
  refine forgets_current.bind fun t =>
    Forgets.ite (Forgets.pure rfl) (forgets_advance.bind fun _ => ?_)
  refine forgets_current.bind fun t => ?_
  have hhead : (ofToken? t.unnamed).bind head? = ((ofToken? t).bind head?).map Head.unnamed := by
    rw [ofToken?_unnamed]
    cases ofToken? t with
    | none => rfl
    | some e => exact head?_unnamed e
  rw [hhead]
  cases (ofToken? t).bind head? with
  | none => exact (forgets_unexpected _).bind fun _ => forgets_advance.bind fun _ => h.selections e
  | some head =>
    cases head with
    | label l bindable =>
      refine forgets_advance.bind fun _ => ?_
      rw [Expr.place_unnamed]
      exact h.selections (.select e.place e l)
    | faulty p m =>
      exact (forgets_unexpected _).bind fun _ => forgets_advance.bind fun _ => h.selections e

theorem primary_succ (h : ForgetsAt name n) :
    Forgets name Expr.unnamed (Source.primary (n + 1)) (Source.primary (n + 1)) := by
  rw [Source.primary]
  refine forgets_current.bind fun t => ?_
  rw [ofToken?_unnamed]
  cases ofToken? t with
  | some e => exact forgets_advance.bind fun _ => Forgets.pure rfl
  | none =>
    refine Forgets.ite ?_ (Forgets.ite ?_ (Forgets.ite ?_ ?_))
    · refine forgets_advance.bind fun _ => (h.expression 1).bind fun e => ?_
      exact (forgets_expect name _).bind fun _ => Forgets.pure rfl
    · refine forgets_advance.bind fun _ => h.listItems.bind fun items => ?_
      exact (forgets_expectClosing name _ _).bind fun _ => Forgets.pure rfl
    · refine forgets_advance.bind fun _ => h.declarations.bind fun ds => ?_
      exact (forgets_expectClosing name _ _).bind fun _ => Forgets.pure rfl
    · refine Forgets.bind (forgets_modify fun s hs => ?_) fun _ => Forgets.pure rfl
      rw [State.unexpected_unnamed, show s.unnamed.tokens.length =
        s.tokens.length from List.length_map _]
      exact (hs.unexpected _).resume _

theorem listItems_succ (h : ForgetsAt name n) :
    Forgets name (Prod.map unnamedItems unnamedTail) (Source.listItems (n + 1))
      (Source.listItems (n + 1)) := by
  rw [Source.listItems]
  refine forgets_current.bind fun t => Forgets.ite (Forgets.pure rfl) (Forgets.ite ?_ ?_)
  · exact forgets_advance.bind fun _ => h.listTail.bind fun _ => Forgets.pure rfl
  · refine (h.expression 1).bind fun e => (forgets_itemComma name).bind fun more =>
      Forgets.ite ?_ (Forgets.pure rfl)
    exact h.listItems.bind fun _ => Forgets.pure rfl

theorem listTail_succ (h : ForgetsAt name n) :
    Forgets name unnamedTail (Source.listTail (n + 1)) (Source.listTail (n + 1)) := by
  rw [Source.listTail]
  refine forgets_current.bind fun t => ?_
  refine Forgets.ite_bind (f := unnamedTail) (Forgets.pure rfl) ((h.expression 1).map fun _ => rfl)
    fun tail => ?_
  refine forgets_current.bind fun t => ?_
  refine Forgets.ite (forgets_advance.bind fun _ => Forgets.pure rfl)
    (Forgets.ite ?_ (Forgets.pure rfl))
  exact (forgets_report _ _).bind fun _ => forgets_advance.bind fun _ => Forgets.pure rfl

theorem declarations_succ (h : ForgetsAt name n) :
    Forgets name unnamedDecls (Source.declarations (n + 1)) (Source.declarations (n + 1)) := by
  rw [Source.declarations]
  refine forgets_current.bind fun t => forgets_get.bind fun s => Forgets.ite (Forgets.pure rfl) ?_
  refine h.declaration.bind fun d => h.declarations.bind fun ds => Forgets.pure ?_
  cases d <;> rfl

theorem declaration_succ (h : ForgetsAt name n) :
    Forgets name (Option.map Decl.unnamed) (Source.declaration (n + 1))
      (Source.declaration (n + 1)) := by
  rw [Source.declaration]
  refine forgets_current.bind fun t => Forgets.ite ?_ (Forgets.ite ?_ ?_)
  · exact forgets_advance.bind fun _ => (forgets_declarationComma name).bind fun _ =>
      Forgets.pure rfl
  · exact (h.expression 1).bind fun e => (forgets_declarationComma name).bind fun _ =>
      Forgets.pure rfl
  · refine (h.expression 1).bind fun e => (forgets_checkName name e).bind fun _ => ?_
    rw [head?_unnamed]
    cases head? e with
    | none => exact (forgets_declarationComma name).bind fun _ => Forgets.pure rfl
    | some head =>
      refine forgets_current.bind fun t => ?_
      refine Forgets.ite_of_else (forgets_current.bind fun u => ?_) fun hk =>
        forgets_advance.bind fun _ => hk
      refine Forgets.ite ?_ (Forgets.ite ?_ (Forgets.ite (Forgets.pure rfl) ?_))
      · refine forgets_advance.bind fun _ => h.fieldValue.bind fun value =>
          (forgets_declarationComma name).bind fun _ => ?_
        exact Forgets.pure (congrArg some (head.field_unnamed _ value))
      · exact forgets_advance.bind fun _ => Forgets.pure rfl
      · exact (forgets_unexpected _).bind fun _ => Forgets.pure rfl

theorem fieldValue_succ (h : ForgetsAt name n) :
    Forgets name Expr.unnamed (Source.fieldValue (n + 1)) (Source.fieldValue (n + 1)) := by
  rw [Source.fieldValue]
  refine forgets_current.bind fun start => Forgets.ite (h.expression 1) ?_
  refine (h.expression 1).bind fun e => (forgets_checkName name e).bind fun _ => ?_
  rw [head?_unnamed]
  cases head? e with
  | none => exact Forgets.pure rfl
  | some head =>
    refine forgets_current.bind fun t =>
      Forgets.ite (Forgets.pure rfl) (forgets_current.bind fun t => ?_)
    refine Forgets.ite_of_else (forgets_current.bind fun u => Forgets.ite ?_ ?_) fun hk =>
      forgets_advance.bind fun _ => hk
    · refine forgets_advance.bind fun _ => h.fieldValue.bind fun value => Forgets.pure ?_
      rw [head.field_unnamed]
      rfl
    · exact (forgets_report _ _).bind fun _ => Forgets.pure rfl

theorem succ (h : ForgetsAt name n) : ForgetsAt name (n + 1) where
  expression strength := by
    rw [Source.expression]
    exact h.operand.bind fun e => h.operators strength e
  operators := h.operators_succ
  operand := h.operand_succ
  selections := h.selections_succ
  primary := h.primary_succ
  listItems := h.listItems_succ
  listTail := h.listTail_succ
  declarations := h.declarations_succ
  declaration := h.declaration_succ
  fieldValue := h.fieldValue_succ

end ForgetsAt

/-- **Reading by descent forgets the name**, however far down it goes. -/
theorem forgetsAt (name : Text) (n : Nat) : ForgetsAt name n := by
  induction n with
  | zero => exact .zero name
  | succ n ih => exact ih.succ

/-! ### Whole sources -/

theorem forgets_clause (name : Text) : Forgets name id clause clause := by
  rw [clause]
  refine forgets_current.bind fun t => Forgets.ite_of_else ?_ fun hneeds => ?_
  · refine forgets_current.bind fun t => Forgets.ite ?_ (Forgets.pure rfl)
    exact forgets_advance.bind fun _ => forgets_unexpected _
  · refine forgets_advance.bind fun _ => forgets_current.bind fun word => ?_
    have hcomma {k k' : Reading Unit} (hk : Forgets name id k k') : Forgets name id
        (current >>= fun t => if isComma t then advance >>= fun _ => k
          else if !isFinish t then
            modify (·.unexpected "','") >>= fun _ => advance >>= fun _ => k else k)
        (current >>= fun t => if isComma t then advance >>= fun _ => k'
          else if !isFinish t then modify (·.unexpected "','") >>= fun _ => advance >>= fun _ => k'
            else k') := by
      refine forgets_current.bind fun t => Forgets.ite (forgets_advance.bind fun _ => hk) ?_
      exact Forgets.ite ((forgets_unexpected _).bind fun _ => forgets_advance.bind fun _ => hk) hk
    rw [Token.lexeme_unnamed]
    cases word.lexeme with
    | word n => exact forgets_advance.bind fun _ => hcomma hneeds
    | _ => exact (forgets_unexpected _).bind fun _ => forgets_advance.bind fun _ => hcomma hneeds

theorem forgets_declarationsOfFile (name : Text) (limit : Nat) :
    Forgets name unnamedDecls (declarationsOfFile limit) (declarationsOfFile limit) := by
  rw [declarationsOfFile]
  refine (forgets_clause name).bind fun _ => (forgetsAt name limit).declarations.bind fun ds =>
    forgets_current.bind fun t => ?_
  refine Forgets.ite ?_ (Forgets.pure rfl)
  exact (forgets_unexpected _).bind fun _ => Forgets.pure rfl

/-- **Without names, a source is read as the same expression under every name**, and can be read
under every name if under one. -/
theorem toOption_read_unnamed (name text : Text) :
    (read [] text).toOption = (read name text).toOption.map Expr.unnamed := by
  have hstart : State.IsIn name { tokens := Token.ofSource name text } :=
    ⟨fun _ => Token.source_of_mem_ofSource, by simp⟩
  have hrun :=
    (forgets_declarationsOfFile name (16 * ((Token.ofSource name text).length + 1)) _ hstart).2
  dsimp only [read]
  rw [Token.ofSource_unnamed name]
  generalize Token.ofSource name text = ts at hrun
  have hproblems : (((ts.map Token.unnamed).head?.map Token.problems).getD []).isEmpty =
      ((ts.head?.map Token.problems).getD []).isEmpty := by
    cases ts with
    | nil => rfl
    | cons t ts => exact List.isEmpty_map
  have hplace : ((ts.map Token.unnamed).head?.map Token.place).getD ⟨[], 1, 1⟩ =
      ((ts.head?.map Token.place).getD ⟨name, 1, 1⟩).unnamed := by
    cases ts <;> rfl
  have hstate : ({ tokens := ts.map Token.unnamed } : State) = State.unnamed { tokens := ts } := rfl
  rw [hproblems, hplace, List.length_map, hstate, hrun]
  obtain ⟨ds, s⟩ := (declarationsOfFile (16 * (ts.length + 1))).run { tokens := ts }
  have hclean : s.unnamed.problems.isEmpty = s.problems.isEmpty := List.isEmpty_map
  simp only [hclean]
  split
  · rfl
  · split <;> rfl

end Source

end Config
end RepeatedAddition
