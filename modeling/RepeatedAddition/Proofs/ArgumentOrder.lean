import RepeatedAddition.CommandLine.Session
import RepeatedAddition.Proofs.Delimited

/-!
# The order of arguments

Flags and positional arguments can be written in any order, and a flag in four ways: with one dash
or two, and with its value behind an equals sign or as the next argument.  A command line is taken
here as a list of *pieces*, a positional argument or a whole flag each, and a piece is used as a
whole or not at all.

Every look-up walks over all arguments, those of other flags and those that are used already
included.  It does not take one for another for three reasons.

* A value does not start with a dash, so it is no flag, whatever it says.
* A name has no equals sign in it, so the body of a flag is that of one name only.
* Flags are looked up before positional arguments.  When these are looked up, all flags are used,
  with their values.

So each look-up of a flag uses the pieces of its name and no others (`takeFlag?_argumentsOf`), and
what is left are the positional arguments in their order (`takeParameters_usedUpTo`).

* `Piece`: a positional argument, or a flag in one of its spellings.
* `takeFlags_argumentsOf`: the values of all flags.
* `respond_of_arranged`: the order of arguments and the spelling of flags make no difference.
-/

namespace RepeatedAddition
namespace CommandLine

/-! ## Pieces -/

/-- How a flag is written: with two dashes or with one, and its value as the next argument or behind
an equals sign. -/
structure Spelling where
  twoDashes : Bool
  apart : Bool
  deriving DecidableEq, Repr

/-- The dashes before the name of a flag. -/
def Spelling.dashes (s : Spelling) : Text := if s.twoDashes then Text.lit "--" else Text.lit "-"

/-- A part of a command line that is used as a whole: a positional argument, or a flag with its
value. -/
inductive Piece where
  | operand (text : Text)
  | flag (name : Text) (spelling : Spelling) (value : Text)
  deriving DecidableEq, Repr

namespace Piece

/-- The arguments that make up a piece. -/
def texts : Piece → List Text
  | .operand text => [text]
  | .flag name spelling value =>
    if spelling.apart then [spelling.dashes ++ name, value] else
      [spelling.dashes ++ name ++ Text.lit "=" ++ value]

/-- The text of a positional argument. -/
def operand? : Piece → Option Text
  | .operand text => some text
  | .flag _ _ _ => none

/-- The name of a flag. -/
def name? : Piece → Option Text
  | .operand _ => none
  | .flag name _ _ => some name

/-- The value of a flag of the given name. -/
def valueOf? (name : Text) : Piece → Option Text
  | .operand _ => none
  | .flag name' _ value => if name' = name then some value else none

/-- The text of a positional argument, or the value of a flag. -/
def content : Piece → Text
  | .operand text => text
  | .flag _ _ value => value

/-- The arguments that make up a piece, all used or none. -/
def arguments (p : Piece) (used : Bool) : List Argument := p.texts.map fun t => ⟨t, used⟩

end Piece

/-- A text that can be the name of a flag: it is not empty, starts with no dash and has no equals
sign. -/
structure IsFlagName (name : Text) : Prop where
  ne_nil : name ≠ []
  head : name.head? ≠ some 45
  equals : 61 ∉ name

instance (name : Text) : Decidable (IsFlagName name) :=
  decidable_of_iff (name ≠ [] ∧ name.head? ≠ some 45 ∧ 61 ∉ name)
    ⟨fun h => ⟨h.1, h.2.1, h.2.2⟩, fun h => ⟨h.ne_nil, h.head, h.equals⟩⟩

/-- A piece that can be told from others: what it gives starts with no dash, and if it is a flag, it
has a name. -/
structure Piece.IsClear (p : Piece) : Prop where
  content : p.content.head? ≠ some 45
  name : ∀ name ∈ p.name?, IsFlagName name

variable {name value t : Text} {s : Spelling} {p : Piece} {switch used : Bool}
  {rest : List Argument}

/-! ## One argument -/

theorem flagBody?_of_head (h : t.head? ≠ some 45) : Argument.flagBody? t = none := by
  unfold Argument.flagBody?
  split
  · exact absurd rfl h
  · exact absurd rfl h
  · rfl

theorem ne_terminator_of_head (h : t.head? ≠ some 45) : t ≠ Argument.terminator := by
  rintro rfl
  exact h rfl

/-- A name with dashes before it is a flag, and the dashes can be told from the name. -/
theorem flagBody?_dashes (h : IsFlagName name) (s : Spelling) (t : Text) :
    Argument.flagBody? (s.dashes ++ name ++ t) = some (name ++ t) := by
  cases name with
  | nil => exact absurd rfl h.ne_nil
  | cons b name =>
    have hb : b ≠ 45 := fun hb => h.head (by rw [hb, List.head?_cons])
    obtain ⟨twoDashes, apart⟩ := s
    cases twoDashes with
    | true => rfl
    | false =>
      change Argument.flagBody? (45 :: b :: (name ++ t)) = some (b :: (name ++ t))
      unfold Argument.flagBody?
      split
      · next heq => exact absurd (List.cons.inj (List.cons.inj heq).2).1 hb
      · next heq =>
        obtain ⟨rfl, rfl⟩ := List.cons.inj (List.cons.inj heq).2
        rfl
      · next hother => exact absurd rfl (hother b _)

theorem dashes_ne_terminator (h : IsFlagName name) (s : Spelling) (t : Text) :
    s.dashes ++ name ++ t ≠ Argument.terminator := by
  intro heq
  have hbody := flagBody?_dashes h s t
  rw [heq] at hbody
  have hnil : name ++ t = [] := (Option.some.inj hbody).symm
  exact h.ne_nil (List.append_eq_nil_iff.mp hnil).1

theorem lit_equals : Text.lit "=" = [61] := by decide

/-- What stands behind an equals sign is the value of the name before it, and of no other. -/
theorem valueIn?_joined {name' : Text} (h : IsFlagName name) (h' : IsFlagName name')
    (value : Text) :
    Argument.valueIn? name (name' ++ Text.lit "=" ++ value) =
      if name' = name then some value else none := by
  rw [Argument.valueIn?, lit_equals]
  by_cases hname : name' = name
  · subst hname
    simp
  · have hother : (name ++ [61]).isPrefixOf (name' ++ [61] ++ value) = false := by
      rw [Bool.eq_false_iff, ne_eq, List.isPrefixOf_iff_prefix]
      rintro ⟨rest, hrest⟩
      rw [List.append_assoc, List.append_assoc] at hrest
      exact hname (Text.append_cons_inj h'.equals h.equals hrest.symm).1
    rw [hother, if_neg Bool.false_ne_true, if_neg hname]

theorem valueIn?_bare {name' : Text} (h' : IsFlagName name') :
    Argument.valueIn? name name' = none := by
  have hother : (name ++ Text.lit "=").isPrefixOf name' = false := by
    rw [Bool.eq_false_iff, ne_eq, List.isPrefixOf_iff_prefix]
    rintro ⟨rest, rfl⟩
    exact h'.equals (by simp [lit_equals])
  simp [Argument.valueIn?, hother]

/-- What starts with no dash has nothing to do with any flag. -/
theorem bearing_of_head (h : t.head? ≠ some 45) : Argument.bearing name switch t = .none := by
  rw [Argument.bearing, if_neg (ne_terminator_of_head h), flagBody?_of_head h]

theorem bearing_bare {name' : Text} (name : Text) (switch : Bool) (h' : IsFlagName name')
    (s : Spelling) :
    Argument.bearing name switch (s.dashes ++ name') =
      if name' = name then if switch then .value (Text.lit "true") else .name else .none := by
  have hend := dashes_ne_terminator h' s []
  have hbody := flagBody?_dashes h' s []
  rw [List.append_nil, List.append_nil] at *
  rw [Argument.bearing, if_neg hend, hbody]
  dsimp only
  rw [valueIn?_bare h']

theorem bearing_joined {name' : Text} (switch : Bool) (h : IsFlagName name) (h' : IsFlagName name')
    (s : Spelling) (value : Text) :
    Argument.bearing name switch (s.dashes ++ name' ++ Text.lit "=" ++ value) =
      if name' = name then .value value else .none := by
  have hend := dashes_ne_terminator h' s (Text.lit "=" ++ value)
  have hbody := flagBody?_dashes h' s (Text.lit "=" ++ value)
  have hbare : name' ++ Text.lit "=" ++ value ≠ name := by
    rintro rfl
    exact h.equals (by simp [lit_equals])
  rw [← List.append_assoc] at hend hbody
  rw [← List.append_assoc] at hbody
  rw [Argument.bearing, if_neg hend, hbody]
  dsimp only
  rw [if_neg hbare, valueIn?_joined h h']
  by_cases hname : name' = name
  · rw [if_pos hname, if_pos hname]
  · rw [if_neg hname, if_neg hname]

/-! ## Look-ups of flags -/

/-- A look-up passes over what has nothing to do with it. -/
theorem takeFlag?_of_none {a : Argument} (h : Argument.bearing name switch a.text = .none) :
    Argument.takeFlag? name switch (a :: rest) =
      (Argument.takeFlag? name switch rest).map fun taken => (taken.1, a :: taken.2) := by
  rw [Argument.takeFlag?.eq_def]
  dsimp only
  rw [h]

theorem takeFlag?_of_value {a : Argument} (h : Argument.bearing name switch a.text = .value value) :
    Argument.takeFlag? name switch (a :: rest) =
      (Argument.takeFlag? name switch rest).map fun taken =>
        (value :: taken.1, a.mark :: taken.2) := by
  rw [Argument.takeFlag?.eq_def]
  dsimp only
  rw [h]

theorem takeFlag?_of_name {a : Argument} (h : Argument.bearing name switch a.text = .name)
    (hvalue : value.head? ≠ some 45) :
    Argument.takeFlag? name switch (a :: ⟨value, false⟩ :: rest) =
      (Argument.takeFlag? name switch rest).map fun taken =>
        (value :: taken.1, a.mark :: ⟨value, true⟩ :: taken.2) := by
  rw [Argument.takeFlag?, h]
  dsimp only
  rw [if_neg (by simpa using ne_terminator_of_head hvalue)]
  rfl

/-- A look-up passes over a piece of another name. -/
theorem takeFlag?_other (hp : p.IsClear) (hname : IsFlagName name) (hother : p.name? ≠ some name)
    (rest : List Argument) :
    Argument.takeFlag? name switch (p.arguments used ++ rest) =
      (Argument.takeFlag? name switch rest).map fun taken =>
        (taken.1, p.arguments used ++ taken.2) := by
  cases p with
  | operand t => exact takeFlag?_of_none (bearing_of_head hp.content)
  | flag name' s value =>
    have hname' := hp.name name' rfl
    have hne : name' ≠ name := fun h => hother (congrArg some h)
    obtain ⟨twoDashes, apart⟩ := s
    cases apart with
    | true =>
      have hbare := bearing_bare name switch hname' ⟨twoDashes, true⟩
      rw [if_neg hne] at hbare
      change Argument.takeFlag? name switch (⟨_, used⟩ :: ⟨value, used⟩ :: rest) = _
      rw [takeFlag?_of_none (a := ⟨_, used⟩) hbare, takeFlag?_of_none (bearing_of_head hp.content),
        Option.map_map]
      rfl
    | false =>
      have hjoined := bearing_joined switch hname hname' ⟨twoDashes, false⟩ value
      rw [if_neg hne] at hjoined
      exact takeFlag?_of_none (a := ⟨_, used⟩) hjoined

/-- A look-up takes the value of a flag of its name, and uses it. -/
theorem takeFlag?_own (hp : (Piece.flag name s value).IsClear) (rest : List Argument) :
    Argument.takeFlag? name false ((Piece.flag name s value).arguments false ++ rest) =
      (Argument.takeFlag? name false rest).map fun taken =>
        (value :: taken.1, (Piece.flag name s value).arguments true ++ taken.2) := by
  have hname := hp.name name rfl
  obtain ⟨twoDashes, apart⟩ := s
  cases apart with
  | true =>
    have hbare := bearing_bare name false hname ⟨twoDashes, true⟩
    rw [if_pos rfl] at hbare
    exact takeFlag?_of_name (a := ⟨_, false⟩) hbare hp.content
  | false =>
    have hjoined := bearing_joined false hname hname ⟨twoDashes, false⟩ value
    rw [if_pos rfl] at hjoined
    exact takeFlag?_of_value (a := ⟨_, false⟩) hjoined

/-! ## Many pieces -/

/-- Pieces as arguments, each with whether it is used. -/
def argumentsOf (ps : List (Piece × Bool)) : List Argument := ps.flatMap fun p => p.1.arguments p.2

/-- Pieces, with those used of which it is said. -/
def marking (taken : Piece → Bool) (ps : List (Piece × Bool)) : List (Piece × Bool) :=
  ps.map fun p => (p.1, p.2 || taken p.1)

variable {ps : List (Piece × Bool)}

theorem argumentsOf_cons (p : Piece × Bool) (ps : List (Piece × Bool)) :
    argumentsOf (p :: ps) = p.1.arguments p.2 ++ argumentsOf ps := List.flatMap_cons

theorem argumentsOf_append (ps ps' : List (Piece × Bool)) :
    argumentsOf (ps ++ ps') = argumentsOf ps ++ argumentsOf ps' := List.flatMap_append

/-- A look-up for which there is no flag takes nothing. -/
theorem takeFlag?_of_absent (hname : IsFlagName name) (hclear : ∀ p ∈ ps, p.1.IsClear)
    (habsent : ∀ p ∈ ps, p.1.name? ≠ some name) (switch : Bool) :
    Argument.takeFlag? name switch (argumentsOf ps) = some ([], argumentsOf ps) := by
  induction ps with
  | nil => rfl
  | cons p ps ih =>
    obtain ⟨hp, hps⟩ := List.forall_mem_cons.mp hclear
    obtain ⟨hother, hothers⟩ := List.forall_mem_cons.mp habsent
    rw [argumentsOf_cons, takeFlag?_other hp hname hother, ih hps hothers]
    rfl

/-- **A look-up takes the flags of its name and no others**, in their order. -/
theorem takeFlag?_argumentsOf (hname : IsFlagName name) (hclear : ∀ p ∈ ps, p.1.IsClear)
    (hfresh : ∀ p ∈ ps, p.1.name? = some name → p.2 = false) :
    Argument.takeFlag? name false (argumentsOf ps) =
      some (ps.filterMap fun p => p.1.valueOf? name,
        argumentsOf (marking (fun p => p.name? = some name) ps)) := by
  induction ps with
  | nil => rfl
  | cons p ps ih =>
    obtain ⟨hp, hps⟩ := List.forall_mem_cons.mp hclear
    obtain ⟨hunused, hrest⟩ := List.forall_mem_cons.mp hfresh
    obtain ⟨piece, used⟩ := p
    rw [argumentsOf_cons, marking, List.map_cons, argumentsOf_cons, List.filterMap_cons]
    cases piece with
    | operand t =>
      rw [takeFlag?_other hp hname (by simp [Piece.name?]), ih hps hrest]
      simp [Piece.valueOf?, Piece.name?, marking]
    | flag name' s value =>
      by_cases hown : name' = name
      · subst hown
        obtain rfl : used = false := hunused rfl
        rw [takeFlag?_own hp, ih hps hrest]
        simp [Piece.valueOf?, Piece.name?, marking]
      · have hother : (Piece.flag name' s value).name? ≠ some name := fun h =>
          hown (Option.some.inj h)
        rw [takeFlag?_other hp hname hother, ih hps hrest]
        simp [Piece.valueOf?, Piece.name?, marking, hown]

/-- A flag whose look-up is that of one name with a value. -/
structure Flag.IsValued (f : Flag) : Prop where
  name : IsFlagName f.name
  isSwitch : f.isSwitch = false
  short : f.short = none

theorem Flag.IsValued.takeFlag_argumentsOf {f : Flag} (hf : f.IsValued)
    (hclear : ∀ p ∈ ps, p.1.IsClear) (hfresh : ∀ p ∈ ps, p.1.name? = some f.name → p.2 = false) :
    takeFlag f (argumentsOf ps) =
      ⟨ps.filterMap fun p => p.1.valueOf? f.name, [],
        argumentsOf (marking (fun p => p.name? = some f.name) ps)⟩ := by
  rw [takeFlag, hf.short, takeNamed, hf.isSwitch, takeFlag?_argumentsOf hf.name hclear hfresh]

/-- **The values of flags with different names are told apart**, and all of these flags are used. -/
theorem takeFlags_argumentsOf {fs : List Flag} (hfs : ∀ f ∈ fs, f.IsValued)
    (hnames : (fs.map Flag.name).Nodup) (hclear : ∀ p ∈ ps, p.1.IsClear)
    (hfresh : ∀ p ∈ ps, ∀ f ∈ fs, p.1.name? = some f.name → p.2 = false) :
    takeFlags fs (argumentsOf ps) =
      ⟨fs.map fun f => ps.filterMap fun p => p.1.valueOf? f.name, [],
        argumentsOf (marking (fun p => fs.any fun f => p.name? = some f.name) ps)⟩ := by
  induction fs generalizing ps with
  | nil => simp [takeFlags, marking]
  | cons f fs ih =>
    obtain ⟨hf, hrest⟩ := List.forall_mem_cons.mp hfs
    obtain ⟨hdistinct, hnames⟩ := List.nodup_cons.mp hnames
    have hone := hf.takeFlag_argumentsOf hclear fun p hp => hfresh p hp f List.mem_cons_self
    have hclear' : ∀ p ∈ marking (fun p => p.name? = some f.name) ps, p.1.IsClear :=
      List.forall_mem_map.mpr hclear
    -- no other flag has the name of the first, so its look-up leaves the others unused
    have hfresh' : ∀ p ∈ marking (fun p => p.name? = some f.name) ps, ∀ g ∈ fs,
        p.1.name? = some g.name → p.2 = false := by
      refine List.forall_mem_map.mpr fun q hq g hg hname => ?_
      have hother : q.1.name? ≠ some f.name := fun hown =>
        hdistinct (List.mem_map.mpr ⟨g, hg, Option.some.inj (hname.symm.trans hown)⟩)
      simp [hfresh q hq g (List.mem_cons_of_mem f hg) hname, hother]
    rw [takeFlags, hone]
    dsimp only
    rw [ih hrest hnames hclear' hfresh']
    simp [marking, List.filterMap_map, Function.comp_def, Bool.or_assoc]

/-! ## Positional arguments -/

theorem ne_terminator_of_mem_arguments {a : Argument} (hp : p.IsClear) (ha : a ∈ p.arguments used) :
    a.used = used ∧ a.text ≠ Argument.terminator := by
  obtain ⟨t, ht, rfl⟩ := List.mem_map.mp ha
  refine ⟨rfl, ?_⟩
  cases p with
  | operand t' =>
    obtain rfl := List.mem_singleton.mp ht
    exact ne_terminator_of_head hp.content
  | flag name s value =>
    have hname := hp.name name rfl
    simp only [Piece.texts] at ht
    split at ht
    · rcases List.mem_cons.mp ht with rfl | ht
      · simpa using dashes_ne_terminator hname s []
      · obtain rfl := List.mem_singleton.mp ht
        exact ne_terminator_of_head hp.content
    · obtain rfl := List.mem_singleton.mp ht
      rw [List.append_assoc]
      exact dashes_ne_terminator hname s _

/-- What is used is passed over. -/
theorem positionalFrom_of_used {args rest' : List Argument}
    (hused : ∀ a ∈ args, a.used = true ∧ a.text ≠ Argument.terminator)
    (h : Argument.positionalFrom false rest = .found t rest') :
    Argument.positionalFrom false (args ++ rest) = .found t (args ++ rest') := by
  induction args with
  | nil => exact h
  | cons a args ih =>
    obtain ⟨⟨ha, hend⟩, hargs⟩ := List.forall_mem_cons.mp hused
    rw [List.cons_append, Argument.positionalFrom, if_neg hend, if_pos ha, ih hargs]
    rfl

theorem positionalFrom_operand (h : t.head? ≠ some 45) (rest : List Argument) :
    Argument.positionalFrom false (⟨t, false⟩ :: rest) = .found t (⟨t, true⟩ :: rest) := by
  rw [Argument.positionalFrom, if_neg (ne_terminator_of_head h), if_neg Bool.false_ne_true,
    Argument.isFlag, flagBody?_of_head h]
  rfl

/-- Pieces, with all of them used in front, and behind that the flags but not the positional
arguments. -/
def usedUpTo (front pieces : List Piece) : List (Piece × Bool) :=
  front.map (·, true) ++ pieces.map fun p => (p, p.operand?.isNone)

variable {front pieces flags : List Piece}

/-- Among flags, which are used, it makes no difference where the front ends. -/
theorem usedUpTo_flags (front pieces : List Piece) (hflags : ∀ p ∈ flags, p.operand? = none) :
    usedUpTo front (flags ++ pieces) = usedUpTo (front ++ flags) pieces := by
  have hused : (flags.map fun p => (p, p.operand?.isNone)) = flags.map (·, true) :=
    List.map_congr_left fun p hp => by rw [hflags p hp]; rfl
  rw [usedUpTo, List.map_append, hused, usedUpTo, List.map_append, List.append_assoc]

theorem Piece.eq_operand (h : p.operand? = some t) : p = .operand t := by
  cases p with
  | operand t' => rw [Option.some.inj h]
  | flag name s value => cases h

/-- The first positional argument behind the front is found, and the front goes up to it. -/
theorem takePositional_usedUpTo (hclear : ∀ p ∈ front, p.IsClear) (ht : (Piece.operand t).IsClear) :
    Argument.takePositional (argumentsOf (usedUpTo front (.operand t :: pieces))) =
      .found t (argumentsOf (usedUpTo (front ++ [.operand t]) pieces)) := by
  have hsplit : usedUpTo (front ++ [.operand t]) pieces =
      front.map (·, true) ++ (.operand t, true) :: pieces.map fun p => (p, p.operand?.isNone) := by
    rw [usedUpTo, List.map_append, List.append_assoc]
    rfl
  rw [hsplit, usedUpTo, argumentsOf_append, argumentsOf_append]
  refine positionalFrom_of_used (fun a ha => ?_) ?_
  · obtain ⟨p, hp, ha⟩ := List.mem_flatMap.mp ha
    obtain ⟨piece, hpiece, rfl⟩ := List.mem_map.mp hp
    exact ne_terminator_of_mem_arguments (hclear piece hpiece) ha
  · rw [List.map_cons, argumentsOf_cons, argumentsOf_cons]
    exact positionalFrom_operand ht.content _

/-- **When all flags are used, the positional arguments are what is left**, in their order. -/
theorem takeParameters_usedUpTo {parameters : List Parameter}
    (hclear : ∀ p ∈ front ++ pieces, p.IsClear)
    (hlength : (pieces.filterMap Piece.operand?).length = parameters.length) :
    takeParameters parameters (argumentsOf (usedUpTo front pieces)) =
      ⟨pieces.filterMap Piece.operand?, [], argumentsOf (usedUpTo (front ++ pieces) [])⟩ := by
  -- the front goes up to and with each positional argument that is found
  induction parameters generalizing front pieces with
  | nil =>
    have hnone : pieces.filterMap Piece.operand? = [] := List.length_eq_zero_iff.mp hlength
    have hend := usedUpTo_flags front [] (List.filterMap_eq_nil_iff.mp hnone)
    rw [List.append_nil] at hend
    rw [hnone, hend]
    rfl
  | cons parameter parameters ih =>
    obtain ⟨t, ts, hts⟩ := List.exists_cons_of_length_eq_add_one hlength
    obtain ⟨flags, p, behind, rfl, hflags, hp, hbehind⟩ := List.filterMap_eq_cons_iff.mp hts
    obtain rfl : p = .operand t := Piece.eq_operand hp
    have hlist : front ++ (flags ++ .operand t :: behind) = front ++ flags ++ [.operand t] ++
        behind := by simp
    rw [hlist] at hclear ⊢
    obtain ⟨hfound, -⟩ := List.forall_mem_append.mp hclear
    obtain ⟨hfront, ht⟩ := List.forall_mem_append.mp hfound
    have hlength' : (behind.filterMap Piece.operand?).length = parameters.length := by
      rw [hts, List.length_cons] at hlength
      rw [hbehind]
      exact Nat.succ.inj hlength
    rw [usedUpTo_flags front _ hflags, takeParameters, takeParameter,
      takePositional_usedUpTo hfront (ht (.operand t) (List.mem_singleton_self _))]
    dsimp only
    rw [ih hclear hlength', hts, hbehind]
    rfl

/-- Nothing is left over of arguments that are all used. -/
theorem leftOver?_usedUpTo (front : List Piece) :
    Argument.leftOver? (argumentsOf (usedUpTo front [])) = none := by
  have hused : ∀ a ∈ argumentsOf (usedUpTo front []), a.used = true := by
    intro a ha
    obtain ⟨p, hp, ha⟩ := List.mem_flatMap.mp ha
    rw [usedUpTo, List.map_nil, List.append_nil] at hp
    obtain ⟨piece, -, rfl⟩ := List.mem_map.mp hp
    obtain ⟨t, -, rfl⟩ := List.mem_map.mp ha
    rfl
  have hflag : Argument.unusedFlag? (argumentsOf (usedUpTo front [])) = none := by
    rw [Argument.unusedFlag?, Option.map_eq_none_iff, List.find?_eq_none]
    intro a ha
    simp [hused a ((List.takeWhile_sublist _).subset ha)]
  have hunused : Argument.unused (argumentsOf (usedUpTo front [])) = [] := by
    rw [Argument.unused, List.map_eq_nil_iff, List.filter_eq_nil_iff]
    intro a ha
    simp [hused a ha]
  rw [Argument.leftOver?, hflag, hunused]
  rfl

/-! ## The command line of a product -/

/-- The pieces give two operands in this order, and each flag of the command at most once. -/
structure Arranged (pieces : List Piece) (x y : Text) (config method maxDepth : Option Text) :
    Prop where
  content : ∀ p ∈ pieces, p.content.head? ≠ some 45
  name : ∀ p ∈ pieces, ∀ name ∈ p.name?, name ∈ Command.mul.flags.map Flag.name
  operands : pieces.filterMap Piece.operand? = [x, y]
  config : pieces.filterMap (Piece.valueOf? Flag.config.name) = config.toList
  method : pieces.filterMap (Piece.valueOf? Flag.method.name) = method.toList
  maxDepth : pieces.filterMap (Piece.valueOf? Flag.maxDepth.name) = maxDepth.toList

theorem isValued_of_mem {f : Flag} (h : f ∈ Command.mul.flags) : f.IsValued := by
  have hflags : ∀ f ∈ Command.mul.flags, IsFlagName f.name ∧ f.isSwitch = false ∧
      f.short = none := by decide
  obtain ⟨hname, hswitch, hshort⟩ := hflags f h
  exact ⟨hname, hswitch, hshort⟩

/-- The flags that go with any command have other names. -/
theorem isOther_of_mem : ∀ f ∈ Flag.all,
    IsFlagName f.name ∧ f.name ∉ Command.mul.flags.map Flag.name ∧
      ∀ short ∈ f.short, IsFlagName short ∧ short ∉ Command.mul.flags.map Flag.name := by
  decide

/-- A flag that stands at most once has its value, or what it has without any. -/
theorem Flag.single_toList {f : Flag} {fallback : Text} (h : f.kind = .single fallback)
    (value : Option Text) :
    f.single value.toList = value.getD fallback := by
  cases value with
  | none =>
    unfold Flag.single
    simp [h]
  | some value => rfl

/-- A switch that does not stand on the command line is off. -/
theorem takeSwitch_of_absent {f : Flag} (hclear : ∀ p ∈ ps, p.1.IsClear) (hname : IsFlagName f.name)
    (habsent : ∀ p ∈ ps, p.1.name? ≠ some f.name)
    (hshort : ∀ short ∈ f.short, IsFlagName short ∧ ∀ p ∈ ps, p.1.name? ≠ some short) :
    takeSwitch f (argumentsOf ps) = ⟨false, [], argumentsOf ps⟩ := by
  have hlong := takeFlag?_of_absent hname hclear habsent f.isSwitch
  have htaken : takeFlag f (argumentsOf ps) = ⟨[], [], argumentsOf ps⟩ := by
    rw [takeFlag, takeNamed, hlong]
    cases hs : f.short with
    | none => rfl
    | some short =>
      obtain ⟨hshortName, hshortAbsent⟩ := hshort short hs
      have hnone := takeFlag?_of_absent hshortName hclear hshortAbsent f.isSwitch
      dsimp only
      rw [takeNamed, hnone]
      rfl
  rw [takeSwitch, htaken]

section Arranged

variable {x y : Text} {config method maxDepth : Option Text}
  (h : Arranged pieces x y config method maxDepth)
include h

/-- The command and its pieces can be told from each other. -/
theorem Arranged.isClear : ∀ p ∈ .operand Command.mul.name :: pieces, p.IsClear := by
  have hcommand : (Piece.operand Command.mul.name).IsClear := ⟨by decide, by simp [Piece.name?]⟩
  refine List.forall_mem_cons.mpr ⟨hcommand, fun p hp => ⟨h.content p hp, fun name hname => ?_⟩⟩
  obtain ⟨f, hf, rfl⟩ := List.mem_map.mp (h.name p hp name hname)
  exact (isValued_of_mem hf).name

/-- No switch stands on the command line. -/
theorem Arranged.name?_ne {name : Text} (hname : name ∉ Command.mul.flags.map Flag.name) :
    ∀ p ∈ .operand Command.mul.name :: pieces, p.name? ≠ some name := by
  refine List.forall_mem_cons.mpr ⟨by simp [Piece.name?], fun p hp hown => ?_⟩
  exact hname (h.name p hp name hown)

/-- The look-ups of the flags that go with any command take nothing. -/
theorem Arranged.takeSwitch_eq {f : Flag} (hf : f ∈ Flag.all) :
    takeSwitch f (argumentsOf ((Piece.operand Command.mul.name :: pieces).map (·, false))) =
      ⟨false, [], argumentsOf ((Piece.operand Command.mul.name :: pieces).map (·, false))⟩ := by
  obtain ⟨hname, hother, hshort⟩ := isOther_of_mem f hf
  refine takeSwitch_of_absent (List.forall_mem_map.mpr h.isClear) hname
    (List.forall_mem_map.mpr (h.name?_ne hother)) fun short hs => ?_
  obtain ⟨hshortName, hshortOther⟩ := hshort short hs
  exact ⟨hshortName, List.forall_mem_map.mpr (h.name?_ne hshortOther)⟩

/-- The flags of the command give their values and are used. -/
theorem Arranged.takeFlags_eq :
    takeFlags Command.mul.flags
      (argumentsOf ((.operand Command.mul.name, true) :: pieces.map (·, false))) =
      ⟨[config.toList, method.toList, maxDepth.toList], [],
        argumentsOf (usedUpTo [.operand Command.mul.name] pieces)⟩ := by
  obtain ⟨hcommand, hpieces⟩ := List.forall_mem_cons.mp h.isClear
  have hclear : ∀ p ∈ (.operand Command.mul.name, true) :: pieces.map (·, false), p.1.IsClear :=
    List.forall_mem_cons.mpr ⟨hcommand, List.forall_mem_map.mpr hpieces⟩
  have hfresh : ∀ p ∈ (.operand Command.mul.name, true) :: pieces.map (·, false),
      ∀ f ∈ Command.mul.flags, p.1.name? = some f.name → p.2 = false := by
    intro p hp f _ hname
    rcases List.mem_cons.mp hp with rfl | hp
    · cases hname
    · obtain ⟨piece, -, rfl⟩ := List.mem_map.mp hp
      rfl
  have hvalues (name : Text) :
      ((.operand Command.mul.name, true) :: pieces.map (·, false)).filterMap
      (fun p => p.1.valueOf? name) = pieces.filterMap (Piece.valueOf? name) := by
    rw [List.filterMap_cons_none rfl, List.filterMap_map]
    rfl
  have hmarked : marking (fun p => Command.mul.flags.any fun f => p.name? = some f.name)
      ((.operand Command.mul.name, true) :: pieces.map (·, false)) =
      usedUpTo [.operand Command.mul.name] pieces := by
    rw [marking, List.map_cons, List.map_map]
    refine congrArg ((Piece.operand Command.mul.name, true) :: ·)
      (List.map_congr_left fun p hp => ?_)
    cases p with
    | operand t => rfl
    | flag name s value =>
      obtain ⟨f, hf, hname⟩ := List.mem_map.mp (h.name _ hp name rfl)
      have hany :
          (Command.mul.flags.any fun f => (Piece.flag name s value).name? = some f.name) = true :=
        List.any_eq_true.mpr ⟨f, hf, decide_eq_true (congrArg some hname.symm)⟩
      exact congrArg (Prod.mk _) hany
  rw [takeFlags_argumentsOf (fun f => isValued_of_mem) (by decide) hclear hfresh, hmarked,
    ← h.config, ← h.method, ← h.maxDepth]
  simp only [hvalues]
  rfl

/-- The flags that go with any command are off, and nothing is used. -/
theorem Arranged.takeSwitches_eq :
    takeSwitches (Argument.ofTexts (Command.mul.name :: pieces.flatMap Piece.texts)) =
      ⟨⟨false, false, false⟩, [],
        argumentsOf ((Piece.operand Command.mul.name :: pieces).map (·, false))⟩ := by
  have hunused : Argument.ofTexts (Command.mul.name :: pieces.flatMap Piece.texts) =
      argumentsOf ((Piece.operand Command.mul.name :: pieces).map (·, false)) := by
    rw [argumentsOf, List.flatMap_map, List.flatMap_cons, Argument.ofTexts, List.map_cons,
      List.map_flatMap]
    rfl
  rw [hunused, takeSwitches, h.takeSwitch_eq (f := .help) (by decide)]
  dsimp only
  rw [h.takeSwitch_eq (f := .summary) (by decide)]
  dsimp only
  rw [h.takeSwitch_eq (f := .advanced) (by decide)]
  rfl

/-- Behind the flags of the command, the positional arguments are the operands, and all is used
then. -/
theorem Arranged.takeParameters_eq :
    takeParameters Command.mul.parameters
      (argumentsOf (usedUpTo [.operand Command.mul.name] pieces)) =
      ⟨[x, y], [], argumentsOf (usedUpTo (.operand Command.mul.name :: pieces) [])⟩ := by
  refine (takeParameters_usedUpTo h.isClear (by rw [h.operands]; rfl)).trans ?_
  rw [h.operands]
  rfl

theorem Arranged.plan_eq :
    plan (Command.mul.name :: pieces.flatMap Piece.texts) =
      .request (.mul ⟨x, y, config.getD Config.defaultPath, method.getD [], maxDepth.getD []⟩) := by
  have hcommand :
      Argument.takePositional
      (argumentsOf ((Piece.operand Command.mul.name :: pieces).map (·, false))) =
      .found Command.mul.name
      (argumentsOf ((.operand Command.mul.name, true) :: pieces.map (·, false))) :=
    positionalFrom_operand (by decide) _
  have hname (args : List Argument) : commandOf? (.found Command.mul.name args) =
      some (.mul, args) := rfl
  rw [plan, h.takeSwitches_eq]
  dsimp only
  rw [hcommand, hname]
  dsimp only
  rw [planCommand, h.takeFlags_eq]
  dsimp only
  rw [h.takeParameters_eq]
  dsimp only
  rw [leftOver?_usedUpTo, ← Flag.single_toList (f := .config) rfl,
    ← Flag.single_toList (f := .method) rfl, ← Flag.single_toList (f := .maxDepth) rfl]
  rfl

end Arranged

/-- **The order of arguments and the spelling of flags make no difference.**  A command line that
asks for a product of two operands, with each of the flags at most once and no value that starts
with a dash, is answered as the request for just these values, with defaults for the flags that do
not stand there. -/
theorem respond_of_arranged {pieces : List Piece} {x y : Text}
    {config method maxDepth : Option Text} (h : Arranged pieces x y config method maxDepth)
    (s : Surroundings) (clock : Clock) :
    respond (Command.mul.name :: pieces.flatMap Piece.texts) s clock =
      ⟨true, MulRequest.execute
        ⟨x, y, config.getD Config.defaultPath, method.getD [], maxDepth.getD []⟩ s⟩ := by
  rw [respond, h.plan_eq]
  rfl

/-- Operands and values that look like commands and flags, around each other. -/
def entangled : List Piece :=
  [.flag (Text.lit "config") ⟨true, true⟩ (Text.lit "method"), .operand (Text.lit "mul"),
    .flag (Text.lit "max-depth") ⟨false, false⟩ (Text.lit "config=7"),
    .operand (Text.lit "config=mul")]

/-- Texts that look like commands and flags are taken for what they stand for. -/
theorem respond_of_entangled :
    entangled.flatMap Piece.texts = [Text.lit "--config", Text.lit "method", Text.lit "mul",
      Text.lit "-max-depth=config=7", Text.lit "config=mul"] ∧
    Arranged entangled (Text.lit "mul") (Text.lit "config=mul") (some (Text.lit "method")) none
      (some (Text.lit "config=7")) ∧
    respond (Command.mul.name :: entangled.flatMap Piece.texts) ⟨fun _ => .error .notFound, true,
      .never⟩ ⟨.zero, 0⟩ =
      ⟨true, MulRequest.execute
        ⟨Text.lit "mul", Text.lit "config=mul", Text.lit "method", [], Text.lit "config=7"⟩
        ⟨fun _ => .error .notFound, true, .never⟩⟩ := by
  have harranged :
      Arranged entangled (Text.lit "mul") (Text.lit "config=mul") (some (Text.lit "method")) none
      (some (Text.lit "config=7")) := by
    constructor <;> decide
  exact ⟨by decide, harranged, respond_of_arranged harranged _ _⟩

end CommandLine
end RepeatedAddition
