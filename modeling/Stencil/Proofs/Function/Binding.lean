import Stencil.Function.Parameter

/-!
# Arguments and their parameters

Arguments are dealt out to parameters by their places. A parameter gets the argument at its own
place, the first one that takes all arguments left gets those from its place on, and parameters
behind it get none. Binding converts these shares and nothing else: every argument is in one
share, and what a parameter delivers depends on its own share alone.

* `share`: the arguments that a parameter gets;
* `Parameter.convert`, `Parameter.absent?`: what a parameter makes of its share, and of none;
* `Parameter.convert_rest_eq_ok_iff`, `Parameter.convert_optional`: what parameters that hold others
  make of theirs;
* `Fits`: no argument is left over;
* `flatMap_share`: the shares are the arguments, in order and once each;
* `bindArguments_eq_ok_iff`, `bindArguments_eq_error_iff`: when binding succeeds and with what,
  and how it fails;
* `bindArguments_shares`: all of it, for every list of parameters and arguments.
-/

namespace Stencil

/-! ## Shares -/

/-- The parameter takes all arguments that are left. -/
def Parameter.isRest : Parameter → Bool
  | rest _ => true
  | _ => false

/-- The arguments that parameter `j` gets: the one at its place if there is one. The first rest
parameter gets all from its place on, and those behind it get none. -/
def share (ps : List Parameter) (args : List Value) (j : Nat) : List Value :=
  let first := ps.findIdx Parameter.isRest
  if j < first then args[j]?.toList else if j = first then args.drop j else []

/-- No argument is left over: there is a parameter for each, or one that takes all that are
left. -/
def Fits (ps : List Parameter) (args : List Value) : Prop :=
  args.length ≤ ps.length ∨ ∃ p ∈ ps, p.isRest

/-- What a parameter makes of its share: a rest parameter converts all arguments in it, and the
others convert the only one, or its absence. -/
def Parameter.convert : (p : Parameter) → List Value → Except Mismatch p.Carrier
  | rest p, vs => vs.mapM fun v => p.read (some v)
  | p, vs => p.read vs.head?

/-- What a parameter delivers that gets no argument; most cannot do without one. -/
def Parameter.absent? : (p : Parameter) → Option p.Carrier
  | value => some .undefined
  | optional _ => some none
  | rest _ => some []
  | _ => none

/-- What parameter `j` makes of its share. -/
def converted (ps : List Parameter) (args : List Value) (j : Fin ps.length) :
    Except Mismatch (ps.get j).Carrier :=
  (ps.get j).convert (share ps args j)

/-- What was bound to parameter `j`. -/
def Arguments.get : {ps : List Parameter} → Arguments ps → (j : Fin ps.length) → (ps.get j).Carrier
  | _ :: _, (x, _), ⟨0, _⟩ => x
  | _ :: _, (_, xs), ⟨j + 1, h⟩ => Arguments.get xs ⟨j, Nat.lt_of_succ_lt_succ h⟩

variable {p : Parameter} {ps : List Parameter} {args : List Value} {m : Mismatch}

theorem Parameter.convert_nil (p : Parameter) :
    p.convert [] = match p.absent? with
      | some x => .ok x
      | none => .error .missing := by
  cases p <;> rfl

/-- A list is converted one by one. -/
theorem mapM_eq_ok_iff {α β ε : Type} {f : α → Except ε β} {as : List α} {bs : List β} :
    as.mapM f = .ok bs ↔ as.map f = bs.map .ok := by
  induction as generalizing bs with
  | nil => cases bs <;> simp [pure, Except.pure]
  | cons a as ih =>
    have hcons : (a :: as).mapM f = .ok bs ↔ ∃ b bs', f a = .ok b ∧ as.mapM f = .ok bs' ∧ bs = b :: bs' := by
      rw [List.mapM_cons]
      cases f a with
      | error e => simp [bind, Except.bind]
      | ok b => cases as.mapM f <;> simp [bind, Except.bind, pure, Except.pure, eq_comm]
    rw [hcons, List.map_cons]
    constructor
    · rintro ⟨b, bs', hb, hbs, rfl⟩
      rw [hb, ih.1 hbs, List.map_cons]
    · intro h
      cases bs with
      | nil => cases h
      | cons b bs' =>
        obtain ⟨hb, hbs⟩ := List.cons.inj h
        exact ⟨b, bs', hb, ih.2 hbs, rfl⟩

/-- A parameter that gets one argument converts it. -/
theorem Parameter.convert_singleton (p : Parameter) (v : Value) : p.convert [v] = p.read (some v) := by
  cases p <;> rfl

/-- A rest parameter converts its arguments one by one. -/
theorem Parameter.convert_rest_eq_ok_iff {vs : List Value} {xs : List p.Carrier} :
    p.rest.convert vs = .ok xs ↔ vs.map (fun v => p.convert [v]) = xs.map .ok := by
  simp only [convert_singleton]
  exact mapM_eq_ok_iff

/-- An optional parameter takes undefined and none for absent, and converts all else. -/
theorem Parameter.convert_optional (p : Parameter) (v : Value) :
    p.optional.convert [v] =
      if v.isUndefined || v.isNone then .ok none else (p.convert [v]).map some := by
  rw [p.convert_singleton]
  rfl

/-- A conversion of single arguments that never fails with `e` does not fail with it on a list of
them. -/
theorem mapM_ne_error {α β ε : Type} {f : α → Except ε β} {e : ε} (h : ∀ a, f a ≠ .error e) (as : List α) :
    as.mapM f ≠ .error e := by
  induction as with
  | nil => nofun
  | cons a as ih =>
    rw [List.mapM_cons]
    cases hf : f a with
    | error e' =>
      rintro ⟨⟩
      exact h a hf
    | ok b =>
      cases hs : as.mapM f with
      | error e' =>
        rintro ⟨⟩
        exact ih hs
      | ok bs => nofun

/-- No conversion counts arguments. -/
theorem Parameter.read_ne_tooMany (p : Parameter) (v? : Option Value) : p.read v? ≠ .error .tooMany := by
  induction p generalizing v? with
  | int t =>
    cases v? with
    | none => nofun
    | some v =>
      simp only [read, required]
      split <;> nofun
  | float | single =>
    cases v? with
    | none => nofun
    | some v =>
      simp only [read, required, toFloat]
      split <;> nofun
  | bool | text => cases v? <;> nofun
  | value => nofun
  | optional p ih =>
    cases v? with
    | none => nofun
    | some v =>
      simp only [read]
      split
      · nofun
      · cases hr : p.read (some v) with
        | error m =>
          rintro ⟨⟩
          exact ih _ hr
        | ok x => nofun
  | rest p ih => exact mapM_ne_error (fun v => ih (some v)) _

theorem Parameter.convert_ne_tooMany (p : Parameter) (vs : List Value) : p.convert vs ≠ .error .tooMany := by
  cases p with
  | rest p => exact mapM_ne_error (fun v => p.read_ne_tooMany (some v)) vs
  | _ => exact Parameter.read_ne_tooMany _ _

theorem Mismatch.message_eq_iff (m : Mismatch) : m.message = "too many arguments" ↔ m = .tooMany := by
  refine ⟨fun h => ?_, fun h => h ▸ rfl⟩
  cases m with
  | missing => exact absurd h (by decide)
  | tooMany => rfl
  | unconvertible kind target =>
    have hlist : ("cannot convert " ++ kind.description ++ " to " ++ target).toList =
        "too many arguments".toList := congrArg String.toList h
    have hcannot : "cannot convert ".toList = 'c' :: "annot convert ".toList := by decide
    have htoo : "too many arguments".toList = 't' :: "oo many arguments".toList := by decide
    rw [String.toList_append, String.toList_append, String.toList_append, hcannot, htoo] at hlist
    exact absurd (List.cons.inj hlist).1 (by decide)

/-! ## One parameter after the other -/

/-- The arguments that the first parameter gets. -/
def Parameter.own (p : Parameter) (args : List Value) : List Value :=
  if p.isRest then args else args.head?.toList

/-- The arguments that the first parameter leaves to the others. -/
def Parameter.left (p : Parameter) (args : List Value) : List Value :=
  if p.isRest then [] else args.tail

theorem Parameter.own_append_left (p : Parameter) (args : List Value) : p.own args ++ p.left args = args := by
  unfold own left
  cases p.isRest with
  | true => simp
  | false => cases args <;> rfl

theorem Parameter.take_eq (p : Parameter) (args : List Value) :
    p.take args = (p.convert (p.own args)).map fun x => (x, p.left args) := by
  cases args <;> cases p <;> rfl

theorem share_zero (p : Parameter) (ps : List Parameter) (args : List Value) :
    share (p :: ps) args 0 = p.own args := by
  unfold share Parameter.own
  rw [List.findIdx_cons]
  cases p.isRest with
  | true => simp
  | false => cases args <;> simp

theorem share_succ (p : Parameter) (ps : List Parameter) (args : List Value) (j : Nat) :
    share (p :: ps) args (j + 1) = share ps (p.left args) j := by
  unfold share Parameter.left
  rw [List.findIdx_cons]
  cases p.isRest with
  | true => simp
  | false => cases args <;> simp

theorem fits_cons : Fits (p :: ps) args ↔ Fits ps (p.left args) := by
  unfold Fits Parameter.left
  cases hp : p.isRest with
  | true => simp [hp]
  | false =>
    simp [hp]

/-- In the order of the parameters, the shares are the arguments. -/
theorem flatMap_share (h : Fits ps args) : (List.range ps.length).flatMap (share ps args) = args := by
  induction ps generalizing args with
  | nil =>
    have hargs : args = [] := by simpa [Fits] using h
    rw [hargs]
    rfl
  | cons p ps ih =>
    rw [List.length_cons, List.range_succ_eq_map, List.flatMap_cons, List.flatMap_map, share_zero]
    simp only [share_succ]
    rw [ih (fits_cons.1 h), p.own_append_left]

theorem converted_zero (p : Parameter) (ps : List Parameter) (args : List Value) :
    converted (p :: ps) args ⟨0, Nat.succ_pos _⟩ = p.convert (p.own args) :=
  congrArg p.convert (share_zero p ps args)

theorem converted_succ (p : Parameter) (ps : List Parameter) (args : List Value) (j : Fin ps.length) :
    converted (p :: ps) args j.succ = converted ps (p.left args) j :=
  congrArg (ps.get j).convert (share_succ p ps args j)

theorem bindArguments_of_error (hc : p.convert (p.own args) = .error m) :
    bindArguments (p :: ps) args = .error m := by
  rw [bindArguments, p.take_eq, hc]
  rfl

theorem bindArguments_of_ok {x : p.Carrier} (hc : p.convert (p.own args) = .ok x) :
    bindArguments (p :: ps) args = (bindArguments ps (p.left args)).map fun xs => (x, xs) := by
  rw [bindArguments, p.take_eq, hc]
  rfl

/-! ## Binding -/

/-- All parameters convert their shares. -/
def AllConvert (ps : List Parameter) (args : List Value) : Prop :=
  ∀ j, ∃ x, converted ps args j = .ok x

/-- A parameter rejects its share with a mismatch, and all to the left of it convert theirs. -/
def RejectsFirst (ps : List Parameter) (args : List Value) (m : Mismatch) : Prop :=
  ∃ j, converted ps args j = .error m ∧ ∀ k < j, ∃ x, converted ps args k = .ok x

theorem forall_fin_cons {P : Fin (p :: ps).length → Prop} :
    (∀ j, P j) ↔ P ⟨0, Nat.succ_pos _⟩ ∧ ∀ j : Fin ps.length, P j.succ :=
  Fin.forall_fin_succ

theorem allConvert_cons :
    AllConvert (p :: ps) args ↔ (∃ x, p.convert (p.own args) = .ok x) ∧ AllConvert ps (p.left args) := by
  unfold AllConvert
  rw [forall_fin_cons]
  simp only [converted_zero, converted_succ]
  exact Iff.rfl

theorem rejectsFirst_cons :
    RejectsFirst (p :: ps) args m ↔
      p.convert (p.own args) = .error m ∨
        (∃ x, p.convert (p.own args) = .ok x) ∧ RejectsFirst ps (p.left args) m := by
  constructor
  · rintro ⟨⟨j, hj⟩, hreject, hleft⟩
    cases j with
    | zero => exact .inl ((converted_zero p ps args).symm.trans hreject)
    | succ j =>
      refine .inr ⟨?_, ⟨⟨j, Nat.lt_of_succ_lt_succ hj⟩, ?_, fun k hk => ?_⟩⟩
      · have h := hleft ⟨0, Nat.succ_pos _⟩ (Nat.succ_pos _)
        rwa [converted_zero] at h
      · exact (converted_succ p ps args ⟨j, Nat.lt_of_succ_lt_succ hj⟩).symm.trans hreject
      · have h := hleft k.succ (Nat.succ_lt_succ hk)
        rwa [converted_succ] at h
  · rintro (hreject | ⟨hfirst, j, hreject, hleft⟩)
    · refine ⟨⟨0, Nat.succ_pos _⟩, (converted_zero p ps args).trans hreject, fun k hk => ?_⟩
      exact absurd hk (Nat.not_lt_zero _)
    · refine ⟨j.succ, (converted_succ p ps args j).trans hreject, fun k hk => ?_⟩
      obtain ⟨k, hk'⟩ := k
      cases k with
      | zero => rwa [converted_zero]
      | succ k =>
        have h := hleft ⟨k, Nat.lt_of_succ_lt_succ hk'⟩ (Nat.lt_of_succ_lt_succ hk)
        rwa [← converted_succ] at h

/-- Binding succeeds with the conversions of the shares, if no argument is left over. -/
theorem bindArguments_eq_ok_iff {xs : Arguments ps} :
    bindArguments ps args = .ok xs ↔ (∀ j, converted ps args j = .ok (Arguments.get xs j)) ∧ Fits ps args := by
  induction ps generalizing args with
  | nil => cases args <;> simp [bindArguments, Fits]
  | cons p ps ih =>
    obtain ⟨x, xs⟩ := xs
    rw [forall_fin_cons, converted_zero, fits_cons]
    simp only [converted_succ]
    cases hc : p.convert (p.own args) with
    | error m =>
      rw [bindArguments_of_error hc]
      exact ⟨nofun, fun h => nomatch h.1.1⟩
    | ok y =>
      rw [bindArguments_of_ok hc]
      constructor
      · intro h
        cases hb : bindArguments ps (p.left args) with
        | error m =>
          rw [hb] at h
          cases h
        | ok ys =>
          rw [hb] at h
          cases h
          obtain ⟨hrest, hfits⟩ := ih.1 hb
          exact ⟨⟨rfl, hrest⟩, hfits⟩
      · rintro ⟨⟨hfirst, hrest⟩, hfits⟩
        rw [ih.2 ⟨hrest, hfits⟩]
        cases hfirst
        rfl

/-- Binding fails as the leftmost parameter does that rejects its share, and otherwise because an
argument is left over. -/
theorem bindArguments_eq_error_iff :
    bindArguments ps args = .error m ↔
      RejectsFirst ps args m ∨ m = .tooMany ∧ AllConvert ps args ∧ ¬ Fits ps args := by
  induction ps generalizing args with
  | nil =>
    cases args with
    | nil => simp [bindArguments, Fits, RejectsFirst]
    | cons v vs => simpa [bindArguments, Fits, RejectsFirst, AllConvert] using eq_comm
  | cons p ps ih =>
    rw [rejectsFirst_cons, allConvert_cons, fits_cons]
    cases hc : p.convert (p.own args) with
    | error m' =>
      rw [bindArguments_of_error hc]
      simp
    | ok x =>
      have hmap : (bindArguments ps (p.left args)).map (fun xs => (x, xs)) = .error m ↔
          bindArguments ps (p.left args) = .error m := by
        cases bindArguments ps (p.left args) <;> simp [Except.map]
      rw [bindArguments_of_ok hc, hmap, ih]
      simp

theorem AllConvert.not_rejectsFirst (h : AllConvert ps args) : ¬ RejectsFirst ps args m := by
  rintro ⟨j, hj, -⟩
  obtain ⟨x, hx⟩ := h j
  rw [hj] at hx
  cases hx

theorem exists_bindArguments_iff :
    (∃ xs, bindArguments ps args = .ok xs) ↔ AllConvert ps args ∧ Fits ps args := by
  constructor
  · rintro ⟨xs, h⟩
    obtain ⟨hall, hfits⟩ := bindArguments_eq_ok_iff.1 h
    exact ⟨fun j => ⟨_, hall j⟩, hfits⟩
  · rintro ⟨hall, hfits⟩
    cases h : bindArguments ps args with
    | ok xs => exact ⟨xs, rfl⟩
    | error m =>
      rcases bindArguments_eq_error_iff.1 h with hreject | ⟨-, -, hover⟩
      · exact absurd hreject hall.not_rejectsFirst
      · exact absurd hfits hover

/-- Arguments are counted only when all parameters have converted their shares. -/
theorem eq_tooMany_iff (h : bindArguments ps args = .error m) : m = .tooMany ↔ AllConvert ps args := by
  rcases bindArguments_eq_error_iff.1 h with hreject | ⟨hm, hall, -⟩
  · refine ⟨fun hm => ?_, fun hall => absurd hreject hall.not_rejectsFirst⟩
    obtain ⟨j, hj, -⟩ := hreject
    subst hm
    exact absurd hj (Parameter.convert_ne_tooMany _ _)
  · exact ⟨fun _ => hall, fun _ => hm⟩

/-- Every argument is in the share of one parameter, if there are not too many. Binding delivers
the conversions of the shares, in order, exactly if all parameters convert theirs and no argument
is left over. Otherwise it fails as the leftmost parameter that rejects its share, and without
such a parameter for too many arguments. A parameter without an argument delivers what it has for
its absence, or else misses the argument. An argument that is there is delivered as it is by a value
parameter, and a rest parameter, in an optional one too, delivers one item for each. -/
theorem bindArguments_shares (ps : List Parameter) (args : List Value) :
    (Fits ps args → (List.range ps.length).flatMap (share ps args) = args) ∧
      (∀ xs, bindArguments ps args = .ok xs ↔
        (∀ j, converted ps args j = .ok (Arguments.get xs j)) ∧ Fits ps args) ∧
      ((∃ xs, bindArguments ps args = .ok xs) ↔ AllConvert ps args ∧ Fits ps args) ∧
      (∀ m, bindArguments ps args = .error m ↔
        RejectsFirst ps args m ∨ m = .tooMany ∧ AllConvert ps args ∧ ¬ Fits ps args) ∧
      (∀ m, bindArguments ps args = .error m →
        (m.message = "too many arguments" ↔ AllConvert ps args)) ∧
      (∀ p : Parameter, p.convert [] = match p.absent? with
        | some x => .ok x
        | none => .error .missing) ∧
      (∀ v, Parameter.value.convert [v] = .ok v) ∧
      (∀ (p : Parameter) vs xs, p.rest.convert vs = .ok xs ↔ vs.map (fun v => p.convert [v]) = xs.map .ok) ∧
      ∀ (p : Parameter) v, p.optional.convert [v] =
        if v.isUndefined || v.isNone then .ok none else (p.convert [v]).map some := by
  refine ⟨flatMap_share, fun _ => bindArguments_eq_ok_iff, exists_bindArguments_iff,
    fun _ => bindArguments_eq_error_iff, fun m h => ?_, Parameter.convert_nil, fun _ => rfl,
    fun _ _ _ => Parameter.convert_rest_eq_ok_iff, Parameter.convert_optional⟩
  exact m.message_eq_iff.trans (eq_tooMany_iff h)

/-- A rest parameter takes all arguments from its place on, and leaves none to the next. -/
example (a b c : Value) :
    (List.range 3).map (share [.value, .rest .text, .value] [a, b, c]) = [[a], [b, c], []] := rfl

end Stencil
