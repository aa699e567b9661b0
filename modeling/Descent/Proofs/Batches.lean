import Mathlib.Order.Interval.Finset.Nat
import Descent.Proofs.Terms

/-!
Batches: the identities that one build has given out. What a batch consists of leads on to rules in
the scope of the build, to the batch itself, and to batches that are nested less deep.
Main statement: whatever is built in a scope of rules that settle settles itself. On every way
through a batch, either input is consumed or one more of its identities becomes active.
-/

namespace Descent

open Cursor (Reaches)

namespace World

/-- The identities of a batch that are not active at a cursor. -/
def free (w : World) (c : Cursor) (a b : Nat) : Finset Nat :=
  (Finset.Ico a b).filter fun i => Store.entry ⟨i⟩ c ∉ w.store.active

/-- How often the rules and references of a batch can be entered before one is refused. -/
def room (w : World) (c : Cursor) (a b : Nat) : Nat :=
  c.rest.length * (b - a + 1) + (w.free c a b).card

variable {w w' : World} {c d : Cursor} {a b : Nat} {id : RuleId}

theorem card_free_le (w : World) (c : Cursor) (a b : Nat) : (w.free c a b).card ≤ b - a := by
  have among := Finset.card_filter_le (Finset.Ico a b) fun i => Store.entry ⟨i⟩ c ∉ w.store.active
  rwa [Nat.card_Ico] at among

/-- Whatever is entered is free no longer. -/
theorem free_enter (leads : w.Leads w') (within : id.Within a b)
    (fresh : Store.entry id c ∉ w'.store.active) :
    (w'.enter id c).free c a b ⊂ w.free c a b := by
  have entered (e : Entry) : e ∈ (w'.enter id c).store.active ↔
      e = Store.entry id c ∨ e ∈ w'.store.active := List.mem_cons
  rw [Finset.ssubset_iff_of_subset]
  · refine ⟨id.number, ?_, ?_⟩
    · rw [free, Finset.mem_filter, Finset.mem_Ico]
      exact ⟨within, fun mem => fresh (leads.active _ mem)⟩
    · rw [free, Finset.mem_filter]
      rintro ⟨-, left⟩
      exact left ((entered _).mpr (Or.inl rfl))
  · intro i mem
    rw [free, Finset.mem_filter] at mem ⊢
    exact ⟨mem.1, fun active => mem.2 ((entered _).mpr (Or.inr (leads.active _ active)))⟩

theorem room_enter (leads : w.Leads w') (moved : c.Reaches d) (within : id.Within a b)
    (fresh : Store.entry id d ∉ w'.store.active) :
    (w'.enter id d).room d a b < w.room c a b := by
  have length := moved.rest_length
  have further := moved.onward
  by_cases same : d.position = c.position
  · obtain rfl := moved.eq_of_position_le (Nat.le_of_eq same)
    exact Nat.add_lt_add_left (Finset.card_lt_card (free_enter leads within fresh)) _
  · have shorter : d.rest.length + 1 ≤ c.rest.length := by omega
    have fewer := Nat.mul_le_mul_right (b - a + 1) shorter
    have bounded := (w'.enter id d).card_free_le d a b
    rw [Nat.succ_mul] at fewer
    simp only [room]
    omega

end World

/-- What is known, in a world later than `w₀`, of the batch from `a` to `b`: what it refers to and
how deep it is nested. What its references have been resolved to before `w₀` belongs to it. -/
structure World.Covers (w₀ w : World) (H : RuleId → Prop) (depth a b : Nat) : Prop where
  later : w₀ ≤ w
  bound : b ≤ w.store.nextRule
  scope : ∀ id, H id → w.catalog.Rule w.store.nextRule id
  cells : ∀ id q, id.Within a b → w.store.definition? id = some q →
    w.catalog.Fits H depth a b q
  resolved : ∀ id q, id.Within a b → w₀.store.resolved.lookup id = some q →
    w.catalog.Fits H depth a b q

namespace World.Covers

variable {w₀ w w' : World} {H : RuleId → Prop} {depth a b : Nat}

theorem same (covers : w₀.Covers w H depth a b) (le : w ≤ w') (id : RuleId)
    (within : id.Within a b) : w'.catalog id = w.catalog id :=
  le.catalog id (Nat.lt_of_lt_of_le within.2 covers.bound)

theorem rules_later (covers : w₀.Covers w H depth a b) (le : w ≤ w') (id : RuleId)
    (h : w.catalog.rules H a b id) : w'.catalog.rules H a b id := by
  rcases h with inScope | ⟨within, kind⟩
  · exact Or.inl inScope
  · exact Or.inr ⟨within, (covers.same le id within).trans kind⟩

theorem fits_later (covers : w₀.Covers w H depth a b) (le : w ≤ w') {q : Term}
    (fits : w.catalog.Fits H depth a b q) : w'.catalog.Fits H depth a b q :=
  fits.mono (covers.same le) (Nat.le_refl _) (Nat.le_refl _) (covers.rules_later le)

theorem after (covers : w₀.Covers w H depth a b) (le : w ≤ w') : w₀.Covers w' H depth a b where
  later := World.le_trans covers.later le
  bound := Nat.le_trans covers.bound le.nextRule
  scope id inScope := (covers.scope id inScope).later le.catalog le.nextRule
  cells id q within found := by
    have old := le.definition id (Nat.lt_of_lt_of_le within.2 covers.bound)
    exact covers.fits_later le (covers.cells id q within (old.symm.trans found))
  resolved id q within found := covers.fits_later le (covers.resolved id q within found)

/-- The rules of a batch and of its scope are rules of the world. -/
theorem rule (covers : w₀.Covers w H depth a b) (id : RuleId) (h : w.catalog.rules H a b id) :
    w.catalog.Rule w.store.nextRule id := by
  rcases h with inScope | ⟨within, kind⟩
  · exact covers.scope id inScope
  · exact ⟨Nat.lt_of_lt_of_le within.2 covers.bound, kind⟩

/-- A batch that has been built since `w₀`. -/
theorem of_describes (later : w₀ ≤ w) (scope : ∀ id, H id → w.catalog.Rule w.store.nextRule id)
    {s s' : Store} {q : Term} (first : w₀.store.nextRule ≤ s.nextRule)
    (last : s'.nextRule ≤ w.store.nextRule)
    (same : ∀ id : RuleId, id.Within s.nextRule s'.nextRule →
      w.store.definition? id = s'.definition? id)
    (describes : w.catalog.Describes H depth s s' q) :
    w₀.Covers w H depth s.nextRule s'.nextRule where
  later := later
  bound := last
  scope := scope
  cells id q within found := by
    rw [same id within] at found
    exact (describes.cells id q within.1 found).2.2
  resolved id q within found := by
    rw [w₀.lookup_resolved_beyond (Nat.le_trans first within.1)] at found
    cases found

end World.Covers

/-- Whatever fits a batch of that depth settles, if the rules in its scope do. -/
def World.Builds (w₀ : World) (depth : Nat) : Prop :=
  ∀ {w : World} {c : Cursor} {H : RuleId → Prop} {a b : Nat} {t : Term},
    w₀.Covers w H depth a b → w.catalog.Fits H depth a b t → t.Within .forward →
      w.store.Within .forward → (∀ h : Handle, H h.rule → (Term.rule h).Settles w c) →
        t.Settles w c

/-- The rules and references that what fits a batch may enter settle. -/
structure World.Ready (w : World) (c : Cursor) (H : RuleId → Prop) (depth a b : Nat) : Prop where
  rule : ∀ h : Handle, w.catalog.rules H a b h.rule → (Term.rule h).Settles w c
  reference : ∀ id body scope, w.catalog.references H a b depth id body scope →
    body.Within .forward → (Term.reference id body scope).Settles w c

section Settling

variable {w₀ w : World} {c : Cursor} {H : RuleId → Prop} {depth a b : Nat}

/-- What is built from the rules of a batch settles if they do. It is a batch of its own, which is
nested less deep. -/
theorem World.Covers.settles_built (smaller : ∀ d < depth, w₀.Builds d)
    (covers : w₀.Covers w H depth a b) {w' : World} (le : w ≤ w') {d : Cursor} {s s' : Store}
    {q : Term} {nesting : Nat} (nested : nesting < depth)
    (describes : w'.catalog.Describes (w.catalog.rules H a b) nesting s s' q)
    (first : w₀.store.nextRule ≤ s.nextRule) (last : s'.nextRule ≤ w'.store.nextRule)
    (same : ∀ id : RuleId, id.Within s.nextRule s'.nextRule →
      w'.store.definition? id = s'.definition? id)
    (inside : q.Within .forward) (store : w'.store.Within .forward)
    (rules : ∀ h : Handle, w.catalog.rules H a b h.rule → (Term.rule h).Settles w' d) :
    q.Settles w' d := by
  have known (id : RuleId) (h : w.catalog.rules H a b id) :=
    (covers.rule id h).later le.catalog le.nextRule
  have batch := of_describes (World.le_trans covers.later le) known first last same describes
  exact smaller nesting nested batch describes.fits inside store rules

/-- Along the parts of a term. What a choice builds is a batch that is nested less deep. -/
theorem World.Ready.settles (smaller : ∀ d < depth, w₀.Builds d)
    (covers : w₀.Covers w H depth a b) (ready : w.Ready c H depth a b) {t : Term}
    (fits : w.catalog.Fits H depth a b t) (inside : t.Within .forward) : t.Settles w c := by
  induction t with
  | leaf a => exact .leaf inside
  | unary op p ih => exact .unary op (ih ⟨fits.refers, fits.nesting⟩ inside.2)
  | binary op p q ihp ihq =>
    obtain ⟨nestedP, nestedQ⟩ := Nat.max_le.mp fits.nesting
    exact .binary op (ihp ⟨fits.refers.1, nestedP⟩ inside.2.1)
      (ihq ⟨fits.refers.2, nestedQ⟩ inside.2.2)
  | between first inner last ih₁ ih₂ ih₃ =>
    obtain ⟨nested₁, nested₂₃⟩ := Nat.max_le.mp fits.nesting
    obtain ⟨nested₂, nested₃⟩ := Nat.max_le.mp nested₂₃
    exact .between (ih₁ ⟨fits.refers.1, nested₁⟩ inside.1)
      (ih₂ ⟨fits.refers.2.1, nested₂⟩ inside.2.1) (ih₃ ⟨fits.refers.2.2, nested₃⟩ inside.2.2)
  | bind p next scope ih =>
    obtain ⟨nestedP, nestedNext⟩ := Nat.max_le.mp fits.nesting
    have first := ih ⟨fits.refers.1, nestedP⟩ inside.1
    refine first.bind (fits.refers.2.mono covers.rule) inside.2 ?_
    intro d hd w₁ leads₁ w₂ leads₂ q within describes
    have leads := leads₁.trans leads₂
    exact covers.settles_built smaller leads.later nestedNext
      (describes _ next.nesting fits.refers.2 (Nat.le_refl _))
      (World.le_trans covers.later leads₁.later).nextRule (Nat.le_refl _) (fun _ _ => rfl) within
      leads₂.within fun h known => (ready.rule h known).later leads hd
  | rule h => exact ready.rule h fits.refers
  | reference id body scope => exact ready.reference id body scope fits.refers.1 inside

/-- By the room that is left: nothing is entered that does not leave less of it. -/
theorem World.Covers.ready (smaller : ∀ d < depth, w₀.Builds d)
    (covers : w₀.Covers w H depth a b) (store : w.store.Within .forward)
    (scope : ∀ h : Handle, H h.rule → (Term.rule h).Settles w c) :
    w.Ready c H depth a b := by
  induction left : w.room c a b using Nat.strongRecOn generalizing w c with
  | ind size ih =>
    have entered {d : Cursor} {w' : World} {id : RuleId} (hd : c.Reaches d) (leads : w.Leads w')
        (within : id.Within a b) (fresh : Store.entry id d ∉ w'.store.active) :
        w.Leads (w'.enter id d) ∧ (w'.enter id d).Ready d H depth a b := by
      have leads' := leads.trans (World.leads_enter leads.within id d)
      have less := World.room_enter leads hd within fresh
      refine ⟨leads', ih _ (left ▸ less) (covers.after leads'.later) leads'.within ?_ rfl⟩
      exact fun h known => (scope h known).later leads' hd
    constructor
    · rintro h (inScope | ⟨within, kind⟩)
      · exact scope h inScope
      · refine .rule fun d hd w' leads fresh q found => ?_
        obtain ⟨leads', ready⟩ := entered hd leads within fresh
        have covers' := covers.after leads'.later
        exact ready.settles smaller covers' (covers'.cells _ q within found)
          (leads.within.cells _ q found)
    · rintro id body inner ⟨within, kind, refers, nested⟩ inside
      have bound := Nat.lt_of_lt_of_le within.2 covers.bound
      refine .reference ⟨⟨bound, kind⟩, refers.mono covers.rule⟩ inside ?_
      intro d hd w' leads fresh q found
      obtain ⟨leads', ready⟩ := entered hd leads within fresh
      have covers' := covers.after leads'.later
      have withinQ := leads.within.resolved id q found
      cases before : w₀.store.resolved.lookup id with
      | some q' =>
        have kept := (covers.after leads.later).later.resolved id q' before
        obtain rfl : q' = q := Option.some.inj (kept.symm.trans found)
        exact ready.settles smaller covers' (covers'.resolved id q' within before) withinQ
      | none =>
        obtain ⟨body', inner', kind', s, first, -, -, rfl, last, same, describes⟩ :=
          (covers.after leads.later).later.built id q before found
        rw [leads.later.catalog id bound, kind] at kind'
        cases kind'
        exact covers.settles_built smaller leads'.later nested
          (describes _ body.nesting refers (Nat.le_refl _)) first last same withinQ leads'.within
          fun h known => ready.rule h (covers.rules_later leads'.later _ known)

/-- Batches of every depth settle. -/
theorem World.builds (w₀ : World) (depth : Nat) : w₀.Builds depth := by
  induction depth using Nat.strongRecOn with
  | ind depth smaller =>
    intro w c H a b t covers fits inside store scope
    exact (covers.ready smaller store scope).settles smaller covers fits inside

end Settling
end Descent
