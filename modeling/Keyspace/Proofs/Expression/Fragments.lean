import Keyspace.Proofs.Expression.Closed
/-!
# Which fragments are taken in

Fragments are taken in one after the other.  A fragment is taken in if it is *exact*: its text is
not blank and has just the placeholders that the fragment declares, names and values; and if it is
*new*: nothing it declares was issued or brought before.  The first fragment that is not decides
the error.  What is wrong with it by itself comes first, then a placeholder that is known already,
then one that the text does not use.

Main definitions:

* `Keyspace.Fragment.IsExact` — text and declarations agree;
* `Keyspace.Fragment.Faulty` — what can be wrong with a fragment by itself;
* `Keyspace.Compiler.Admits` — **fragments that are exact and bring only what is new**;
* `Keyspace.Compiler.Knows` — what is known behind some fragments;
* `Keyspace.Fragment.Refused` — why a fragment is refused.

Main results:

* `Keyspace.Fragment.validate_eq_ok_iff`, `Keyspace.Fragment.faulty_of_validate` — what a fragment
  is checked for by itself;
* `Keyspace.Compiler.bringAll_of_admits`, `Keyspace.Compiler.admits_of_bringAll`,
  `Keyspace.Compiler.refused_of_bringAll` — fragments that are taken in, and the first that is not;
* `Keyspace.Compiler.merge_admits_exactly` — **which fragments are joined, and why others are not**.
-/

set_option autoImplicit false

namespace Keyspace

open Placeholder

/-! ### One fragment -/

namespace Fragment

/-- **Text and declarations agree**: the text is not blank, and the placeholders in it are the
declared names and the declared values. -/
structure IsExact (f : Fragment) : Prop where
  visible : Text.isBlankText f.expression = false
  closed : (⟨f.expression, f.names, f.values⟩ : Expression).Closed

/-- What can be wrong with a fragment by itself. -/
inductive Faulty (f : Fragment) : Invalid → Prop
  | blank : Text.isBlankText f.expression = true → Faulty f .emptyFragment
  | undeclared {p : String} : p ∈ tokens f.expression → f.declares p = false →
      Faulty f (.undeclaredPlaceholder p)
  | nameWithoutSign {p : String} : p ∈ f.names.names → isName p = false →
      Faulty f (.nameWithoutSign p)
  | valueWithoutSign {p : String} : p ∈ f.values.names → isValue p = false →
      Faulty f (.valueWithoutSign p)

/-- A refused fragment has a fault, and the error tells it. -/
theorem faulty_of_validate {f : Fragment} {e : Error} (h : f.validate = .error e) :
    ∃ cause, e = .invalid cause ∧ f.Faulty cause := by
  obtain ⟨cause, hcause, rfl⟩ : ∃ cause, f.invalid? = some cause ∧ e = .invalid cause := by
    unfold validate at h
    split at h
    · next cause hcause => exact ⟨cause, hcause, (Except.error.inj h).symm⟩
    · cases h
  refine ⟨cause, rfl, ?_⟩
  unfold invalid? at hcause
  split at hcause
  · next hblank =>
      cases hcause
      exact .blank hblank
  · split at hcause
    · next p hp =>
        cases hcause
        exact .undeclared (List.mem_of_find?_eq_some hp) (by simpa using List.find?_some hp)
    · split at hcause
      · next p hp =>
          cases hcause
          exact .nameWithoutSign (List.mem_of_find?_eq_some hp) (by simpa using List.find?_some hp)
      · obtain ⟨p, hp, rfl⟩ := Option.map_eq_some_iff.1 hcause
        exact .valueWithoutSign (List.mem_of_find?_eq_some hp) (by simpa using List.find?_some hp)

/-- A placeholder is declared among the names or among the values, as its sign says. -/
theorem declares_iff {f : Fragment} {p : String} :
    f.declares p = true ↔ if isName p then p ∈ f.names.names else p ∈ f.values.names := by
  unfold declares
  split
  · exact Dict.contains_iff
  · exact Dict.contains_iff

/-- **A fragment is right by itself** if nothing is wrong with it. -/
theorem validate_eq_ok_iff {f : Fragment} :
    f.validate = .ok () ↔ ∀ cause, ¬f.Faulty cause := by
  constructor
  · intro h cause hfaulty
    have hnone : f.invalid? = none := by
      unfold validate at h
      split at h
      · cases h
      · next hnone => exact hnone
    unfold invalid? at hnone
    split at hnone
    · cases hnone
    · next hvisible =>
        split at hnone
        · cases hnone
        · next hdeclared =>
            split at hnone
            · cases hnone
            · next hnames =>
                have hvalues := Option.map_eq_none_iff.1 hnone
                cases hfaulty with
                | blank hblank => exact hvisible hblank
                | undeclared hp hno => exact List.find?_eq_none.1 hdeclared _ hp (by simp [hno])
                | nameWithoutSign hp hno => exact List.find?_eq_none.1 hnames _ hp (by simp [hno])
                | valueWithoutSign hp hno => exact List.find?_eq_none.1 hvalues _ hp (by simp [hno])
  · intro h
    cases hvalidate : f.validate with
    | ok u => rfl
    | error e =>
        obtain ⟨cause, -, hfaulty⟩ := faulty_of_validate hvalidate
        exact absurd hfaulty (h cause)

/-- An exact fragment is right by itself. -/
theorem IsExact.validate {f : Fragment} (h : f.IsExact) : f.validate = .ok () := by
  refine validate_eq_ok_iff.2 fun cause hfaulty => ?_
  cases hfaulty with
  | blank hblank =>
      rw [h.visible] at hblank
      cases hblank
  | @undeclared p hp hno =>
      have hdeclared : f.declares p = true := by
        rw [declares_iff]
        split
        · next hname => exact (h.closed.names p).2 ⟨hname, hp⟩
        · next hname =>
            have hvalue := (isName_or_isValue_of_mem_tokens hp).resolve_left hname
            exact (h.closed.values p).2 ⟨hvalue, hp⟩
      rw [hno] at hdeclared
      cases hdeclared
  | nameWithoutSign hp hno =>
      rw [((h.closed.names _).1 hp).1] at hno
      cases hno
  | valueWithoutSign hp hno =>
      rw [((h.closed.values _).1 hp).1] at hno
      cases hno

/-- An exact fragment uses what it declares. -/
theorem IsExact.used {f : Fragment} (h : f.IsExact) : f.unused? = none := by
  refine List.find?_eq_none.2 fun p hp => ?_
  have hin : p ∈ tokens f.expression := by
    rcases List.mem_append.1 hp with hp | hp
    · exact ((h.closed.names p).1 hp).2
    · exact ((h.closed.values p).1 hp).2
  simpa using hin

theorem isExact_of_validate {f : Fragment} (hvalid : f.validate = .ok ())
    (hused : f.unused? = none) : f.IsExact := by
  refine ⟨?_, Compiler.closed_of_validate hvalid hused⟩
  rw [Bool.eq_false_iff]
  exact fun hblank => validate_eq_ok_iff.1 hvalid _ (.blank hblank)

/-- **Why a fragment is refused** if some placeholders are known: for what is wrong with it by
itself; if nothing is, for a placeholder that is known; and otherwise for one that is not used. -/
inductive Refused (known : String → Prop) (f : Fragment) : Error → Prop
  | faulty {cause : Invalid} : f.Faulty cause → Refused known f (.invalid cause)
  | collision {p : String} : (∀ cause, ¬f.Faulty cause) → p ∈ f.declared → known p →
      Refused known f (.placeholderCollision p)
  | unused {p : String} : (∀ cause, ¬f.Faulty cause) → (∀ q ∈ f.declared, ¬known q) →
      p ∈ f.declared → p ∉ tokens f.expression → Refused known f (.invalid (.unusedPlaceholder p))

theorem Refused.congr {known known' : String → Prop} (h : ∀ p, known p ↔ known' p) {f : Fragment}
    {e : Error} (hrefused : f.Refused known e) : f.Refused known' e := by
  obtain rfl : known = known' := funext fun p => propext (h p)
  exact hrefused

end Fragment

namespace Compiler

/-- A compiler that takes a fragment in. -/
theorem bring_of_isExact {c : Compiler} {f : Fragment} (hexact : f.IsExact)
    (hnew : ∀ p ∈ f.declared, c.hasIssued p = false) :
    c.bring f = .ok { c with brought := c.brought ++ f.declared } := by
  have hfind : f.declared.find? c.hasIssued = none :=
    List.find?_eq_none.2 fun p hp => by simp [hnew p hp]
  unfold bring
  rw [hexact.validate, hfind, hexact.used]
  rfl

/-- **Why a compiler refuses a fragment.** -/
theorem refused_of_bring {c : Compiler} {f : Fragment} {e : Error} (h : c.bring f = .error e) :
    f.Refused (fun p => c.hasIssued p = true) e := by
  unfold bring at h
  cases hvalidate : f.validate with
  | error cause =>
      rw [hvalidate] at h
      obtain rfl : cause = e := Except.error.inj h
      obtain ⟨cause, rfl, hfaulty⟩ := Fragment.faulty_of_validate hvalidate
      exact .faulty hfaulty
  | ok u =>
      have hright := Fragment.validate_eq_ok_iff.1 hvalidate
      rw [hvalidate] at h
      simp only [bind, Except.bind] at h
      split at h
      · next p hp =>
          cases h
          exact .collision hright (List.mem_of_find?_eq_some hp) (List.find?_some hp)
      · next hnew =>
          split at h
          · next p hp =>
              cases h
              refine .unused hright (List.find?_eq_none.1 hnew) (List.mem_of_find?_eq_some hp) ?_
              simpa using List.find?_some hp
          · cases h

/-! ### Several fragments -/

/-- What a compiler knows behind some fragments: what it has issued or taken in, and what the
fragments declare. -/
def Knows (c : Compiler) (earlier : List Fragment) (p : String) : Prop :=
  c.hasIssued p = true ∨ ∃ f ∈ earlier, p ∈ f.declared

/-- **Fragments that are exact and bring only what is new**: nothing they declare was there before,
and no two of them declare the same. -/
structure Admits (c : Compiler) (fs : List Fragment) : Prop where
  exact : ∀ f ∈ fs, f.IsExact
  new : ∀ f ∈ fs, ∀ p ∈ f.declared, c.hasIssued p = false
  apart : fs.Pairwise fun f g => ∀ p ∈ f.declared, p ∉ g.declared

theorem Admits.nil (c : Compiler) : c.Admits [] := ⟨by simp, by simp, .nil⟩

/-- What is known when a fragment was taken in. -/
theorem hasIssued_brought {c : Compiler} {f : Fragment} {p : String} :
    ({ c with brought := c.brought ++ f.declared } : Compiler).hasIssued p = true ↔
      c.hasIssued p = true ∨ p ∈ f.declared := by
  simp only [hasIssued_iff, List.mem_append, or_assoc]

/-- One more fragment in front. -/
theorem admits_cons_iff {c : Compiler} {f : Fragment} {rest : List Fragment} :
    c.Admits (f :: rest) ↔ (f.IsExact ∧ ∀ p ∈ f.declared, c.hasIssued p = false) ∧
      ({ c with brought := c.brought ++ f.declared } : Compiler).Admits rest := by
  have hunknown : ∀ p, ({ c with brought := c.brought ++ f.declared } : Compiler).hasIssued p =
      false ↔ c.hasIssued p = false ∧ p ∉ f.declared := by
    intro p
    rw [Bool.eq_false_iff, Ne, hasIssued_brought, not_or, Bool.eq_false_iff]
  constructor
  · intro h
    obtain ⟨hexact, hrest⟩ := List.forall_mem_cons.1 h.exact
    obtain ⟨hnew, hmore⟩ := List.forall_mem_cons.1 h.new
    obtain ⟨hapart, hothers⟩ := List.pairwise_cons.1 h.apart
    refine ⟨⟨hexact, hnew⟩, hrest, fun g hg p hp => (hunknown p).2 ⟨hmore g hg p hp, ?_⟩, hothers⟩
    exact fun hpf => hapart g hg p hpf hp
  · rintro ⟨⟨hexact, hnew⟩, hrest⟩
    refine ⟨List.forall_mem_cons.2 ⟨hexact, hrest.exact⟩, List.forall_mem_cons.2 ⟨hnew, ?_⟩,
      List.pairwise_cons.2 ⟨?_, hrest.apart⟩⟩
    · exact fun g hg p hp => ((hunknown p).1 (hrest.new g hg p hp)).1
    · exact fun g hg p hpf hpg => ((hunknown p).1 (hrest.new g hg p hpg)).2 hpf

/-- **Fragments that bring only what is new are taken in.** -/
theorem bringAll_of_admits {c : Compiler} {fs : List Fragment} (h : c.Admits fs) :
    c.bringAll fs =
      (.ok (), { c with brought := c.brought ++ fs.flatMap Fragment.declared }) := by
  induction fs generalizing c with
  | nil => simp [bringAll]
  | cons f rest ih =>
      obtain ⟨⟨hexact, hnew⟩, hrest⟩ := admits_cons_iff.1 h
      simp only [bringAll, bring_of_isExact hexact hnew, ih hrest, List.flatMap_cons,
        List.append_assoc]

theorem admits_of_bringAll {c d : Compiler} {fs : List Fragment}
    (h : c.bringAll fs = (.ok (), d)) : c.Admits fs := by
  have htaken := bringAll_spec h
  exact ⟨fun f hf => Fragment.isExact_of_validate (htaken.valid f hf) (htaken.used f hf),
    htaken.fresh, htaken.apart⟩

/-- **The first fragment that is not taken in**, and why. -/
theorem refused_of_bringAll {c d : Compiler} {fs : List Fragment} {e : Error}
    (h : c.bringAll fs = (.error e, d)) :
    ∃ earlier f later, fs = earlier ++ f :: later ∧ c.Admits earlier ∧
      f.Refused (c.Knows earlier) e := by
  induction fs generalizing c with
  | nil => cases h
  | cons f rest ih =>
      cases hbring : c.bring f with
      | error cause =>
          simp only [bringAll, hbring] at h
          obtain rfl : cause = e := Except.error.inj (Prod.mk.inj h).1
          refine ⟨[], f, rest, rfl, .nil c, (refused_of_bring hbring).congr fun p => ?_⟩
          simp [Knows]
      | ok b =>
          simp only [bringAll, hbring] at h
          obtain ⟨hvalid, hnew, hused, rfl⟩ := bring_spec hbring
          obtain ⟨earlier, g, later, rfl, hadmits, hrefused⟩ := ih h
          refine ⟨f :: earlier, g, later, rfl, ?_, hrefused.congr fun p => ?_⟩
          · exact admits_cons_iff.2
              ⟨⟨Fragment.isExact_of_validate hvalid hused, hnew⟩, hadmits⟩
          · simp only [Knows, hasIssued_brought, List.exists_mem_cons_iff, or_assoc]

/-- **Which fragments are joined, and why others are not.**  Without fragments the generated
expression stays as it is.  Fragments are joined with it exactly if they are exact and bring only
what is new; otherwise the first one that is not decides the error. -/
theorem merge_admits_exactly (c : Compiler) (generated : Option Expression)
    (fs : List Fragment) :
    c.merge generated [] = (.ok generated, c) ∧
      ((∃ merged d, c.merge generated fs = (.ok merged, d)) ↔ c.Admits fs) ∧
      ∀ e d, c.merge generated fs = (.error e, d) →
        ∃ earlier f later, fs = earlier ++ f :: later ∧ c.Admits earlier ∧
          f.Refused (c.Knows earlier) e := by
  refine ⟨rfl, ⟨?_, fun h => ?_⟩, fun e d h => ?_⟩
  · rintro ⟨merged, d, h⟩
    unfold merge at h
    split at h
    · next hempty =>
        rw [List.isEmpty_iff.1 hempty]
        exact .nil c
    · split at h
      · next hbring => exact admits_of_bringAll hbring
      · cases h
  · unfold merge
    split
    · exact ⟨generated, c, rfl⟩
    · rw [bringAll_of_admits h]
      exact ⟨_, _, rfl⟩
  · unfold merge at h
    split at h
    · cases h
    · split at h
      · cases h
      · next cause b hbring =>
          obtain rfl : cause = e := Except.error.inj (Prod.mk.inj h).1
          exact refused_of_bringAll hbring

/-- A fragment cannot be joined twice. -/
example :
    let f : Fragment :=
      { expression := "#x = :x", names := [("#x", "kind")], values := [(":x", .text "a")] }
    (empty.merge none [f, f]).1 = .error (.placeholderCollision "#x") := by
  rfl

end Compiler

end Keyspace
