/-
  HermesPlatform.Registry.DefaultModel

  The default model of the registry: `update_model`, `set_default_model` and `delete_model`
  against `model_registrations`, under PostgreSQL's read committed.

  A request loads its row and checks it, clears the flag of the other rows in one statement,
  and writes its own row when the session is flushed.  The flush writes the attributes whose
  value differs from the one that was loaded and no others.  The rows a transaction has
  written stay locked to its end, and a statement waits for them; a transaction that raises
  is rolled back, which can happen at any time.
-/

import HermesPlatform.Lib.Parties
import HermesPlatform.Lib.Table
import HermesPlatform.Lib.Transition
import Mathlib.Data.String.Basic

namespace HermesPlatform
namespace Registry

open Parties Transition

/-! ## Rows and requests -/

/-- The flags of a `ModelRegistration`. -/
structure Row where
  isEnabled : Bool
  isDefault : Bool
deriving DecidableEq, Repr

/-- `ck_model_registrations_default_enabled`. -/
def Row.checked (row : Row) : Bool := !row.isDefault || row.isEnabled

inductive Request where
  /-- The flags of the payload, where they are given, and whether another attribute differs
      from the row that is loaded. -/
  | update (isEnabled isDefault : Option Bool) (others : Bool)
  | setDefault
  | delete
deriving DecidableEq, Repr

/-- The guards of the endpoints, on the row as it is loaded. -/
def Request.accepts (value : Row) : Request → Bool
  | .update isEnabled isDefault _ =>
      !(value.isDefault && (isEnabled == some false || isDefault == some false))
  | .setDefault => true
  | .delete => !value.isDefault

/-- The request has a statement that clears the flag of other rows. -/
def Request.clears : Request → Bool
  | .update _ isDefault _ => isDefault == some true
  | .setDefault => true
  | .delete => false

inductive Phase where
  /-- The row is loaded and the guard has passed. -/
  | loaded
  /-- Past the `UPDATE` of the other rows. -/
  | cleared
  /-- Past the flush of the session. -/
  | flushed
  | closed
deriving DecidableEq, Repr

structure Transaction where
  id : String
  request : Request
  /-- The attributes as the session believes them to be stored. -/
  value : Row
  phase : Phase
  /-- The versions it has written; `none` is a deletion. -/
  writes : List (String × Option Row)
deriving DecidableEq, Repr

structure Store where
  rows : List (String × Row)
  transactions : List Transaction
deriving DecidableEq, Repr

inductive Move where
  | clear
  | flush
  | commit
  | rollback
deriving DecidableEq, Repr

inductive Action where
  | load (id : String) (request : Request)
  | move (i : Nat) (m : Move)
deriving DecidableEq, Repr

namespace Transaction

variable (t : Transaction)

/-- The rows that the `UPDATE` of the flags reaches: `WHERE id != value.id`, or all. -/
def covers (id : String) : Bool :=
  match t.request with
  | .update _ _ _ => id ≠ t.id
  | .setDefault => true
  | .delete => false

/-- What the transaction sees of a row. -/
def sees (rows : List (String × Row)) (id : String) : Option Row :=
  (Table.get id t.writes).getD (Table.get id rows)

/-- The new value of an attribute, if it differs from the loaded one. -/
def differs (new : Option Bool) (old : Bool) : Option Bool := if new = some old then none else new

/-- The flags that the flush writes, `is_enabled` first. -/
def changes : Option Bool × Option Bool :=
  match t.request with
  | .update isEnabled isDefault _ =>
      let isEnabled := if isDefault = some true then some true else isEnabled
      (differs isEnabled t.value.isEnabled, differs isDefault t.value.isDefault)
  | .setDefault => (differs (some true) t.value.isEnabled, differs (some true) t.value.isDefault)
  | .delete => (none, none)

/-- An attribute other than the flags is written. -/
def others : Bool :=
  match t.request with
  | .update _ _ others => others
  | _ => false

end Transaction

namespace Store

variable (s : Store)

/-- No other transaction has written the row. -/
def free (i : Nat) (id : String) : Bool :=
  (s.transactions.eraseIdx i).all fun t => (Table.get id t.writes).isNone

def put (i : Nat) (t : Transaction) : Store :=
  { s with transactions := s.transactions.set i t }

end Store

/-- The `UPDATE` that clears the flags; in `set_default` it also sets the attribute of the
    row that is loaded. -/
def clear (s : Store) (i : Nat) (t : Transaction) : Option Transaction :=
  if t.request.clears then
    if s.rows.all fun e => !t.covers e.1 || s.free i e.1 then
      some
        { t with
          phase := .cleared
          value := if t.covers t.id then { t.value with isDefault := false } else t.value
          writes := s.rows.filterMap fun e =>
            (if t.covers e.1 then some (some { e.2 with isDefault := false }) else none).map
              (e.1, ·) }
    else none
  else some { t with phase := .cleared }

/-- Another row is the default (`uq_model_registrations_one_default`).  The transactions
    that set the flag hold every other row, so that no version of theirs is in progress. -/
def otherDefault (s : Store) (t : Transaction) : Bool :=
  s.rows.any fun e => e.1 ≠ t.id && (t.sees s.rows e.1).any (·.isDefault)

/-- The `UPDATE` or `DELETE` of the flush. -/
def flush (s : Store) (i : Nat) (t : Transaction) : Option Transaction :=
  match t.request with
  | .delete =>
      if s.free i t.id then
        match t.sees s.rows t.id with
        | none => some { t with phase := .flushed }
        | some _ => some { t with phase := .flushed, writes := Table.put t.id none t.writes }
      else none
  | _ =>
      if t.changes = (none, none) ∧ ¬ t.others then some { t with phase := .flushed }
      else if s.free i t.id then
        match t.sees s.rows t.id with
        -- `StaleDataError`
        | none => none
        | some row =>
            let row : Row :=
              { isEnabled := t.changes.1.getD row.isEnabled
                isDefault := t.changes.2.getD row.isDefault }
            if row.checked ∧ ¬ (t.changes.2 = some true ∧ otherDefault s t) then
              some { t with phase := .flushed, writes := Table.put t.id (some row) t.writes }
            else none
      else none

def commit (rows : List (String × Row)) (t : Transaction) : List (String × Row) :=
  rows.filterMap fun e => ((Table.get e.1 t.writes).getD (some e.2)).map (e.1, ·)

def moveStep (s : Store) (i : Nat) (t : Transaction) : Move → Option Store
  | .clear => if t.phase = .loaded then (clear s i t).map (s.put i) else none
  | .flush => if t.phase = .cleared then (flush s i t).map (s.put i) else none
  | .commit =>
      if t.phase = .flushed then
        some { s.put i { t with phase := .closed, writes := [] } with rows := commit s.rows t }
      else none
  | .rollback => some (s.put i { t with phase := .closed, writes := [] })

def step (s : Store) : Action → Option Store
  | .load id request =>
      (Table.get id s.rows).bind fun value =>
        if request.accepts value then
          some { s with transactions := s.transactions ++ [⟨id, request, value, .loaded, []⟩] }
        else none
  | .move i m => s.transactions[i]?.bind fun t => moveStep s i t m

/-- Exactly one registration is the default, and it is enabled. -/
def OneDefault (rows : List (String × Row)) : Prop :=
  ∃ id row, Table.get id rows = some row ∧ row.isDefault ∧ row.isEnabled ∧
    ∀ other row', Table.get other rows = some row' → row'.isDefault → other = id

def system : System Store Action where
  init s := Table.Unique Prod.fst s.rows ∧ (∀ e ∈ s.rows, e.2.checked) ∧ OneDefault s.rows ∧
    s.transactions = []
  step := step

/-- The guard still holds when the request writes: a row that is deleted is not the default
    by then, and a row that was loaded as the default is still the default when the flags of
    the others are cleared. -/
def GuardHolds (s : Store) : Action → Prop
  | .move i .flush => ∀ t ∈ s.transactions[i]?, t.request = .delete →
      ∀ row ∈ Table.get t.id s.rows, row.isDefault = false
  | .move i .clear => ∀ t ∈ s.transactions[i]?, t.request.clears → ¬ t.covers t.id →
      t.value.isDefault → ∃ row ∈ Table.get t.id s.rows, row.isDefault
  | _ => True

instance : ∀ (s : Store) (a : Action), Decidable (GuardHolds s a)
  | s, .move i .clear => inferInstanceAs (Decidable (∀ t ∈ s.transactions[i]?,
      t.request.clears → ¬ t.covers t.id → t.value.isDefault →
        ∃ row ∈ Table.get t.id s.rows, row.isDefault))
  | s, .move i .flush => inferInstanceAs (Decidable (∀ t ∈ s.transactions[i]?,
      t.request = .delete → ∀ row ∈ Table.get t.id s.rows, row.isDefault = false))
  | _, .load _ _ => isTrue trivial
  | _, .move _ .commit => isTrue trivial
  | _, .move _ .rollback => isTrue trivial

/-! ## The invariant -/

namespace Transaction

/-- Past the statement that clears the flags of the other rows. -/
def Clearing (t : Transaction) : Prop :=
  (t.phase = .cleared ∨ t.phase = .flushed) ∧ t.request.clears

/-- What a transaction has written, against the committed rows. -/
structure Ok (rows : List (String × Row)) (t : Transaction) : Prop where
  idle : t.phase = .loaded ∨ t.phase = .closed → t.writes = []
  unclear : t.phase = .cleared → t.request.clears = false → t.writes = []
  /-- Where no flag is cleared, none is written. -/
  accepted : t.request.clears = false → t.changes.2 = none
  exist : ∀ id, (Table.get id t.writes).isSome → (Table.get id rows).isSome
  /-- Every other row is held, without the flag. -/
  others : t.Clearing → ∀ id row, Table.get id rows = some row → id ≠ t.id →
    ∃ r, Table.get id t.writes = some (some r) ∧ r.isDefault = false
  /-- A flag that is not written is there. -/
  kept : t.Clearing → t.changes.2 = none → ∃ row ∈ Table.get t.id rows, row.isDefault
  own : t.phase = .cleared → t.request.clears → t.changes.2 = none →
    Table.get t.id t.writes = none
  set : t.phase = .flushed → t.request.clears → t.changes.2 = some true →
    ∃ r, Table.get t.id t.writes = some (some r) ∧ r.isDefault ∧ r.isEnabled
  unset : t.phase = .flushed → t.request.clears → t.changes.2 = none →
    ∀ w, Table.get t.id t.writes = some w → ∃ r, w = some r ∧ r.isDefault ∧ r.isEnabled
  plain : t.phase = .flushed → t.request.clears = false →
    ∀ id w, Table.get id t.writes = some w → ∀ row ∈ Table.get id rows,
      (w = none ∧ row.isDefault = false) ∨
        ∃ r, w = some r ∧ r.isDefault = row.isDefault ∧ r.checked

/-- A request that clears the flags sets its own, unless it was loaded with it. -/
theorem changes_of_clears {t : Transaction} (h : t.request.clears) :
    t.changes.2 = none ∨ t.changes.2 = some true := by
  have hdiffers : ∀ old, differs (some true) old = none ∨ differs (some true) old = some true := by
    decide
  unfold changes
  cases hrequest : t.request with
  | update isEnabled isDefault _ =>
      rw [hrequest] at h
      obtain rfl : isDefault = some true := by simpa [Request.clears] using h
      exact hdiffers t.value.isDefault
  | setDefault => exact hdiffers t.value.isDefault
  | delete => exact .inl rfl

theorem changes_of_accepts {t : Transaction} (h : t.request.accepts t.value)
    (hclears : t.request.clears = false) : t.changes.2 = none := by
  unfold changes
  cases hrequest : t.request with
  | update isEnabled isDefault _ =>
      rw [hrequest] at h hclears
      simp only [Request.accepts, Request.clears] at h hclears
      cases hdefault : t.value.isDefault <;> rcases isDefault with _ | _ | _ <;>
        simp [hdefault, differs] at h hclears ⊢
  | setDefault => simp [hrequest, Request.clears] at hclears
  | delete => rfl

theorem covers_of_ne {t : Transaction} (h : t.request.clears) {id : String} (hne : id ≠ t.id) :
    t.covers id = true := by
  unfold covers
  cases hrequest : t.request with
  | update => simpa using hne
  | setDefault => rfl
  | delete => simp [hrequest, Request.clears] at h

/-- After the statement the flag is left unwritten only by an update of a row that was loaded
    as the default. -/
theorem not_covers_of_unwritten {t : Transaction} (h : t.request.clears)
    {phase : Phase} {writes : List (String × Option Row)}
    (hnone : ({ t with
      phase := phase
      value := if t.covers t.id then { t.value with isDefault := false } else t.value
      writes := writes } : Transaction).changes.2 = none) :
    ¬ t.covers t.id ∧ t.value.isDefault := by
  unfold changes at hnone
  cases hrequest : t.request with
  | update isEnabled isDefault _ =>
      rw [hrequest] at h
      obtain rfl : isDefault = some true := by simpa [Request.clears] using h
      have hcovers : t.covers t.id = false := by simp [covers, hrequest]
      refine ⟨by simp [hcovers], ?_⟩
      by_contra hdefault
      simp [hrequest, hcovers, differs, hdefault] at hnone
  | setDefault =>
      have hcovers : t.covers t.id = true := by simp [covers, hrequest]
      simp [hrequest, hcovers, differs] at hnone
  | delete => simp [hrequest, Request.clears] at h

end Transaction

/-- What every step keeps. -/
structure RegistryInv (s : Store) : Prop where
  unique : Table.Unique Prod.fst s.rows
  checked : ∀ id row, Table.get id s.rows = some row → row.checked
  one : OneDefault s.rows
  ok : ∀ t ∈ s.transactions, t.Ok s.rows
  locks : Exclusive (fun t id => (Table.get id t.writes).isSome) s.transactions

namespace RegistryInv

variable {s : Store} {i : Nat} {t t' : Transaction}

theorem freeFor {id : String} (h : s.free i id = true) :
    FreeFor (fun t id => (Table.get id t.writes).isSome) s.transactions i id :=
  freeFor_of_all h fun t ht => by simpa using ht

/-- Nothing is committed. -/
theorem put (h : RegistryInv s) (hget : s.transactions[i]? = some t) (hok : t'.Ok s.rows)
    (hlocks : ∀ id, (Table.get id t'.writes).isSome → (Table.get id t.writes).isSome ∨
      FreeFor (fun t id => (Table.get id t.writes).isSome) s.transactions i id) :
    RegistryInv (s.put i t') :=
  { h with
    ok := by
      intro u hu
      obtain hu | rfl := List.mem_or_eq_of_mem_set hu
      · exact h.ok u hu
      · exact hok
    locks := h.locks.set hget hlocks }

theorem ok_closed {rows : List (String × Row)} (hok : t.Ok rows) (rows' : List (String × Row)) :
    ({ t with phase := .closed, writes := [] } : Transaction).Ok rows' where
  idle := fun _ => rfl
  unclear := fun _ _ => rfl
  accepted := hok.accepted
  exist := fun _ hw => by cases hw
  others := fun hc => by simp [Transaction.Clearing] at hc
  kept := fun hc => by simp [Transaction.Clearing] at hc
  own := fun _ _ _ => rfl
  set := fun hp => by cases hp
  unset := fun hp => by cases hp
  plain := fun hp => by cases hp

theorem rollback (h : RegistryInv s) (hget : s.transactions[i]? = some t) :
    RegistryInv (s.put i { t with phase := .closed, writes := [] }) :=
  h.put hget (ok_closed (h.ok t (List.mem_of_getElem? hget)) _) fun _ hw => by cases hw

theorem load (h : RegistryInv s) {id : String} {request : Request} {value : Row}
    (haccepts : request.accepts value) :
    RegistryInv { s with
      transactions := s.transactions ++ [⟨id, request, value, .loaded, []⟩] } :=
  { h with
    ok := by
      rw [List.forall_mem_append, List.forall_mem_singleton]
      refine ⟨h.ok, ?_⟩
      exact
        { idle := fun _ => rfl
          unclear := fun _ _ => rfl
          accepted := Transaction.changes_of_accepts haccepts
          exist := fun _ hw => by cases hw
          others := fun hc => by simp [Transaction.Clearing] at hc
          kept := fun hc => by simp [Transaction.Clearing] at hc
          own := fun _ _ _ => rfl
          set := fun hp => by cases hp
          unset := fun hp => by cases hp
          plain := fun hp => by cases hp }
    locks := h.locks.append fun _ hw => by cases hw }

theorem get_clear (h : RegistryInv s) (id : String) :
    Table.get id (s.rows.filterMap fun e =>
        (if t.covers e.1 then some (some { e.2 with isDefault := false }) else none).map
          (e.1, ·)) =
      (Table.get id s.rows).bind fun row =>
        if t.covers id then some (some { row with isDefault := false }) else none :=
  Table.get_filterMap h.unique
    (fun id (row : Row) =>
      if t.covers id then some (some { row with isDefault := false }) else none) id

theorem clear (h : RegistryInv s) (hget : s.transactions[i]? = some t) (hphase : t.phase = .loaded)
    (hgood : t.request.clears → ¬ t.covers t.id → t.value.isDefault →
      ∃ row ∈ Table.get t.id s.rows, row.isDefault)
    (hstep : Registry.clear s i t = some t') : RegistryInv (s.put i t') := by
  have hok : t.Ok s.rows := h.ok t (List.mem_of_getElem? hget)
  unfold Registry.clear at hstep
  split at hstep
  next hclears =>
    split at hstep
    next hfree =>
      rw [Option.some.injEq] at hstep
      subst hstep
      refine h.put hget ?_ ?_
      · exact
          { idle := fun hp => by simp at hp
            unclear := fun _ hc => by simp [hclears] at hc
            accepted := fun hc => by simp [hclears] at hc
            exist := by
              intro id hw
              rw [h.get_clear] at hw
              cases hrow : Table.get id s.rows with
              | none => simp [hrow] at hw
              | some row => rfl
            others := by
              intro _ id row hrow hne
              rw [h.get_clear, hrow, Option.bind_some,
                if_pos (Transaction.covers_of_ne hclears hne)]
              exact ⟨_, rfl, rfl⟩
            kept := by
              intro _ hnone
              exact hgood hclears (Transaction.not_covers_of_unwritten hclears hnone).1
                (Transaction.not_covers_of_unwritten hclears hnone).2
            own := by
              intro _ _ hnone
              rw [h.get_clear]
              have hcovers : t.covers t.id = false := by
                simpa using (Transaction.not_covers_of_unwritten hclears hnone).1
              cases Table.get t.id s.rows with
              | none => rfl
              | some row => simp [hcovers]
            set := fun hp => by cases hp
            unset := fun hp => by cases hp
            plain := fun hp => by cases hp }
      · intro id hw
        rw [h.get_clear] at hw
        cases hrow : Table.get id s.rows with
        | none => simp [hrow] at hw
        | some row =>
            have hcovers : t.covers id = true := by
              by_contra hcovers
              simp [hrow, hcovers] at hw
            have hall := List.all_eq_true.mp hfree (id, row) (Table.mem_of_get hrow)
            rw [hcovers] at hall
            exact .inr (freeFor (by simpa using hall))
    · cases hstep
  next hclears =>
    rw [Option.some.injEq] at hstep
    subst hstep
    have hwrites : t.writes = [] := hok.idle (.inl hphase)
    refine h.put hget ?_ (fun id hw => .inl hw)
    exact
      { idle := fun hp => by simp at hp
        unclear := fun _ _ => hwrites
        accepted := hok.accepted
        exist := hok.exist
        others := fun hc => absurd hc.2 hclears
        kept := fun hc => absurd hc.2 hclears
        own := fun _ hc => absurd hc hclears
        set := fun hp => by cases hp
        unset := fun hp => by cases hp
        plain := fun hp => by cases hp }

/-- Past a flush that leaves the rows alone. -/
theorem ok_flush_unwritten {rows : List (String × Row)} (hok : t.Ok rows)
    (hphase : t.phase = .cleared) (hnone : t.changes.2 = none) :
    ({ t with phase := .flushed } : Transaction).Ok rows where
  idle := fun hp => by simp at hp
  unclear := fun hp => by cases hp
  accepted := hok.accepted
  exist := hok.exist
  others := fun hc => hok.others ⟨.inl hphase, hc.2⟩
  kept := fun hc => hok.kept ⟨.inl hphase, hc.2⟩
  own := fun hp => by cases hp
  set := by
    intro _ _ hset
    have hsome : t.changes.2 = some true := hset
    simp [hnone] at hsome
  unset := by
    intro _ hclears _ w hw
    have hown : Table.get t.id t.writes = none := hok.own hphase hclears hnone
    have hfound : Table.get t.id t.writes = some w := hw
    simp [hown] at hfound
  plain := by
    intro _ hclears id w hw
    have hwrites : t.writes = [] := hok.unclear hphase hclears
    have hfound : Table.get id t.writes = some w := hw
    simp [hwrites, Table.get, Table.lookup] at hfound

theorem ok_flush_delete {rows : List (String × Row)} (hok : t.Ok rows)
    (hphase : t.phase = .cleared) (hdelete : t.request = .delete)
    (hgood : ∀ row ∈ Table.get t.id rows, row.isDefault = false)
    (hsome : (Table.get t.id rows).isSome) :
    ({ t with phase := .flushed, writes := Table.put t.id none t.writes } : Transaction).Ok
      rows := by
  have hclears : t.request.clears = false := by rw [hdelete]; rfl
  have hwrites : t.writes = [] := hok.unclear hphase hclears
  have hput : ∀ id, Table.get id (Table.put t.id none t.writes) =
      if id = t.id then some none else none := by
    intro id
    rw [Table.get_put, hwrites]
    rfl
  exact
    { idle := fun hp => by simp at hp
      unclear := fun hp => by cases hp
      accepted := hok.accepted
      exist := by
        intro id hw
        rw [hput] at hw
        split at hw
        next hid => rwa [hid]
        next => cases hw
      others := fun hc => absurd hc.2 (by simp [hclears])
      kept := fun hc => absurd hc.2 (by simp [hclears])
      own := fun hp => by cases hp
      set := fun _ hc => by simp [hclears] at hc
      unset := fun _ hc => by simp [hclears] at hc
      plain := by
        intro _ _ id w hw row hrow
        have hfound : Table.get id (Table.put t.id none t.writes) = some w := hw
        rw [hput] at hfound
        split at hfound
        next hid =>
          cases hfound
          rw [hid] at hrow
          exact .inl ⟨rfl, hgood row hrow⟩
        next => cases hfound }

/-- The row as the transaction sees it, with what the flush changes. -/
theorem ok_flush_write {rows : List (String × Row)} (hok : t.Ok rows) (hphase : t.phase = .cleared)
    {row : Row} (hsees : t.sees rows t.id = some row) {new : Row}
    (hdefault : new.isDefault = t.changes.2.getD row.isDefault) (hchecked : new.checked) :
    ({ t with phase := .flushed, writes := Table.put t.id (some new) t.writes } : Transaction).Ok
      rows := by
  have hput : ∀ id, Table.get id (Table.put t.id (some new) t.writes) =
      if id = t.id then some (some new) else Table.get id t.writes := fun id => Table.get_put id
  have henabled : new.isDefault = true → new.isEnabled = true := by
    intro hnew
    simpa [Row.checked, hnew] using hchecked
  -- Where nothing of the row is written yet, it is the committed one that is seen.
  have hstored : Table.get t.id t.writes = none → Table.get t.id rows = some row := by
    intro hnone
    simpa [Transaction.sees, hnone] using hsees
  exact
    { idle := fun hp => by simp at hp
      unclear := fun hp => by cases hp
      accepted := hok.accepted
      exist := by
        intro id hw
        rw [hput] at hw
        split at hw
        next hid =>
          rw [hid]
          cases hown : Table.get t.id t.writes with
          | none => rw [hstored hown]; rfl
          | some w => exact hok.exist t.id (by rw [hown]; rfl)
        next => exact hok.exist id hw
      others := by
        intro hc id row hrow hne
        rw [hput, if_neg hne]
        exact hok.others ⟨.inl hphase, hc.2⟩ id row hrow hne
      kept := fun hc => hok.kept ⟨.inl hphase, hc.2⟩
      own := fun hp => by cases hp
      set := by
        intro _ _ hset
        have hchanges : t.changes.2 = some true := hset
        have hnew : new.isDefault = true := by rw [hdefault, hchanges]; rfl
        exact ⟨new, by rw [hput, if_pos rfl], hnew, henabled hnew⟩
      unset := by
        intro _ hclears hunset w hw
        have hchanges : t.changes.2 = none := hunset
        obtain ⟨row', hrow', hdefault'⟩ := hok.kept ⟨.inl hphase, hclears⟩ hchanges
        rw [hstored (hok.own hphase hclears hchanges)] at hrow'
        cases hrow'
        have hnew : new.isDefault = true := by rw [hdefault, hchanges]; exact hdefault'
        rw [hput, if_pos rfl] at hw
        cases hw
        exact ⟨new, rfl, hnew, henabled hnew⟩
      plain := by
        intro _ hclears id w hw row' hrow'
        have hwrites : t.writes = [] := hok.unclear hphase hclears
        have hfound : Table.get id (Table.put t.id (some new) t.writes) = some w := hw
        rw [hput, hwrites] at hfound
        split at hfound
        next hid =>
          cases hfound
          rw [hid, hstored (by rw [hwrites]; rfl)] at hrow'
          cases hrow'
          exact .inr ⟨new, rfl, by rw [hdefault, hok.accepted hclears]; rfl, hchecked⟩
        next => cases hfound }

theorem flush (h : RegistryInv s) (hget : s.transactions[i]? = some t) (hphase : t.phase = .cleared)
    (hgood : t.request = .delete → ∀ row ∈ Table.get t.id s.rows, row.isDefault = false)
    (hstep : Registry.flush s i t = some t') : RegistryInv (s.put i t') := by
  have hok : t.Ok s.rows := h.ok t (List.mem_of_getElem? hget)
  have hlocks : s.free i t.id = true → ∀ (w : Option Row) (id : String),
      (Table.get id (Table.put t.id w t.writes)).isSome → (Table.get id t.writes).isSome ∨
        FreeFor (fun t id => (Table.get id t.writes).isSome) s.transactions i id := by
    intro hfree w id hw
    rw [Table.get_put] at hw
    split at hw
    next hid =>
      rw [hid]
      exact .inr (freeFor hfree)
    next => exact .inl hw
  unfold Registry.flush at hstep
  split at hstep
  next hdelete =>
    have hwrites : t.writes = [] := hok.unclear hphase (by rw [hdelete]; rfl)
    split at hstep
    next hfree =>
      split at hstep
      next =>
        rw [Option.some.injEq] at hstep
        subst hstep
        have hnone : t.changes.2 = none := hok.accepted (by rw [hdelete]; rfl)
        exact h.put hget (ok_flush_unwritten hok hphase hnone) fun id hw => .inl hw
      next hsees =>
        rw [Option.some.injEq] at hstep
        subst hstep
        have hsome : (Table.get t.id s.rows).isSome := by
          rw [Transaction.sees, hwrites] at hsees
          exact Option.isSome_iff_exists.mpr ⟨_, hsees⟩
        exact h.put hget (ok_flush_delete hok hphase hdelete (hgood hdelete) hsome)
          (hlocks hfree none)
    next => cases hstep
  next =>
    split at hstep
    next hunchanged =>
      rw [Option.some.injEq] at hstep
      subst hstep
      have hnone : t.changes.2 = none := by rw [hunchanged.1]
      exact h.put hget (ok_flush_unwritten hok hphase hnone) fun id hw => .inl hw
    next =>
      split at hstep
      next hfree =>
        split at hstep
        next => cases hstep
        next row hsees =>
          dsimp only at hstep
          split at hstep
          next hnew =>
            rw [Option.some.injEq] at hstep
            subst hstep
            exact h.put hget (ok_flush_write hok hphase hsees rfl hnew.1) (hlocks hfree (some _))
          next => cases hstep
      next => cases hstep

/-! ### The commit -/

theorem get_commit (h : RegistryInv s) (id : String) :
    Table.get id (commit s.rows t) =
      (Table.get id s.rows).bind fun row => (Table.get id t.writes).getD (some row) :=
  Table.get_filterMap h.unique (fun id row => (Table.get id t.writes).getD (some row)) id

theorem get_commit_of_unwritten (h : RegistryInv s) {id : String}
    (hnone : Table.get id t.writes = none) :
    Table.get id (commit s.rows t) = Table.get id s.rows := by
  rw [h.get_commit, hnone]
  cases Table.get id s.rows <;> rfl

theorem get_commit_of_written (h : RegistryInv s) (hok : t.Ok s.rows) {id : String}
    {w : Option Row} (hw : Table.get id t.writes = some w) :
    Table.get id (commit s.rows t) = w := by
  obtain ⟨row, hrow⟩ := Option.isSome_iff_exists.mp (hok.exist id (by rw [hw]; rfl))
  rw [h.get_commit, hrow, hw]
  rfl

/-- A committed row was there, or has been written. -/
theorem get_commit_cases (h : RegistryInv s) (hok : t.Ok s.rows) {id : String} {row : Row}
    (hget : Table.get id (commit s.rows t) = some row) :
    (Table.get id t.writes = none ∧ Table.get id s.rows = some row) ∨
      Table.get id t.writes = some (some row) := by
  cases hw : Table.get id t.writes with
  | none => exact .inl ⟨rfl, by rwa [h.get_commit_of_unwritten hw] at hget⟩
  | some w =>
      rw [h.get_commit_of_written hok hw] at hget
      exact .inr (by rw [hget])

/-- After a commit that clears the flags of the others, the row of the transaction is the
    default, and enabled. -/
theorem default_of_clears (h : RegistryInv s) (hok : t.Ok s.rows) (hphase : t.phase = .flushed)
    (hclears : t.request.clears) :
    ∃ row, Table.get t.id (commit s.rows t) = some row ∧ row.isDefault ∧ row.isEnabled := by
  obtain hchanges | hchanges := Transaction.changes_of_clears hclears
  · obtain ⟨row, hrow, hdefault⟩ := hok.kept ⟨.inr hphase, hclears⟩ hchanges
    cases hw : Table.get t.id t.writes with
    | none =>
        have henabled : row.isEnabled = true := by
          simpa [Row.checked, hdefault] using h.checked t.id row hrow
        exact ⟨row, by rw [h.get_commit_of_unwritten hw]; exact hrow, hdefault, henabled⟩
    | some w =>
        obtain ⟨new, rfl, hnew⟩ := hok.unset hphase hclears hchanges w hw
        exact ⟨new, h.get_commit_of_written hok hw, hnew⟩
  · obtain ⟨new, hw, hnew⟩ := hok.set hphase hclears hchanges
    exact ⟨new, h.get_commit_of_written hok hw, hnew⟩

/-- A row that is not that of the transaction is committed without the flag. -/
theorem not_default_of_clears (h : RegistryInv s) (hok : t.Ok s.rows) (hphase : t.phase = .flushed)
    (hclears : t.request.clears) {id : String} {row : Row}
    (hget : Table.get id (commit s.rows t) = some row) (hdefault : row.isDefault) : id = t.id := by
  by_contra hne
  obtain ⟨row', hrow'⟩ : ∃ row', Table.get id s.rows = some row' := by
    obtain ⟨-, hrow⟩ | hw := h.get_commit_cases hok hget
    · exact ⟨row, hrow⟩
    · exact Option.isSome_iff_exists.mp (hok.exist id (by rw [hw]; rfl))
  obtain ⟨new, hw, hnew⟩ := hok.others ⟨.inr hphase, hclears⟩ id row' hrow' hne
  rw [h.get_commit_of_written hok hw] at hget
  cases hget
  simp [hdefault] at hnew

/-- Without a statement that clears flags, no flag changes. -/
theorem commit_plain (h : RegistryInv s) (hok : t.Ok s.rows) (hphase : t.phase = .flushed)
    (hclears : t.request.clears = false) {id : String} {row : Row}
    (hget : Table.get id (commit s.rows t) = some row) :
    ∃ row', Table.get id s.rows = some row' ∧ row.isDefault = row'.isDefault ∧ row.checked := by
  obtain ⟨-, hrow⟩ | hw := h.get_commit_cases hok hget
  · exact ⟨row, hrow, rfl, h.checked id row hrow⟩
  · obtain ⟨row', hrow'⟩ := Option.isSome_iff_exists.mp (hok.exist id (by rw [hw]; rfl))
    obtain ⟨hnone, -⟩ | ⟨new, hnew, hdefault, hchecked⟩ :=
      hok.plain hphase hclears id _ hw row' hrow'
    · cases hnone
    · cases hnew
      exact ⟨row', hrow', hdefault, hchecked⟩

/-- A default that no statement has cleared stays. -/
theorem default_of_plain (h : RegistryInv s) (hok : t.Ok s.rows) (hphase : t.phase = .flushed)
    (hclears : t.request.clears = false) {id : String} {row : Row}
    (hrow : Table.get id s.rows = some row) (hdefault : row.isDefault) :
    ∃ row', Table.get id (commit s.rows t) = some row' ∧ row'.isDefault ∧ row'.checked := by
  cases hw : Table.get id t.writes with
  | none =>
      exact ⟨row, by rw [h.get_commit_of_unwritten hw]; exact hrow, hdefault, h.checked id row hrow⟩
  | some w =>
      obtain ⟨-, hfalse⟩ | ⟨new, rfl, hnew, hchecked⟩ :=
        hok.plain hphase hclears id w hw row hrow
      · simp [hdefault] at hfalse
      · exact ⟨new, h.get_commit_of_written hok hw, by rw [hnew]; exact hdefault, hchecked⟩

theorem commit_one (h : RegistryInv s) (hok : t.Ok s.rows) (hphase : t.phase = .flushed) :
    OneDefault (commit s.rows t) := by
  cases hclears : t.request.clears with
  | true =>
      obtain ⟨row, hrow, hdefault, henabled⟩ := h.default_of_clears hok hphase hclears
      refine ⟨t.id, row, hrow, hdefault, henabled, ?_⟩
      intro other row' hrow' hdefault'
      exact h.not_default_of_clears hok hphase hclears hrow' hdefault'
  | false =>
      obtain ⟨id, row, hrow, hdefault, -, honly⟩ := h.one
      obtain ⟨new, hnew, hdefault', hchecked⟩ := h.default_of_plain hok hphase hclears hrow hdefault
      refine ⟨id, new, hnew, hdefault', by simpa [Row.checked, hdefault'] using hchecked, ?_⟩
      intro other row' hrow' hother
      obtain ⟨old, hold, hsame, -⟩ := h.commit_plain hok hphase hclears hrow'
      exact honly other old hold (by rw [← hsame]; exact hother)

theorem commit_checked (h : RegistryInv s) (hok : t.Ok s.rows) (hphase : t.phase = .flushed)
    {id : String} {row : Row} (hget : Table.get id (commit s.rows t) = some row) : row.checked := by
  cases hclears : t.request.clears with
  | true =>
      cases hdefault : row.isDefault with
      | false => simp [Row.checked, hdefault]
      | true =>
          have hid : id = t.id := h.not_default_of_clears hok hphase hclears hget hdefault
          obtain ⟨row', hrow', -, henabled⟩ := h.default_of_clears hok hphase hclears
          rw [hid, hrow'] at hget
          cases hget
          simp [Row.checked, henabled]
  | false =>
      obtain ⟨-, -, -, hchecked⟩ := h.commit_plain hok hphase hclears hget
      exact hchecked

/-- Two transactions that have cleared flags are about the same row, if one of them leaves the
    flag of a row that has it. -/
theorem clearing_eq {u : Transaction} (h : RegistryInv s) (hokt : t.Ok s.rows) (hok : u.Ok s.rows)
    (hphase : t.phase = .flushed) (hclears : t.request.clears)
    (hfree : ∀ id, (Table.get id u.writes).isSome → Table.get id t.writes = none)
    (hclearing : u.Clearing) {row : Row} (hrow : Table.get u.id s.rows = some row)
    (hdefault : row.isDefault) : t.id = u.id := by
  obtain hchanges | hchanges := Transaction.changes_of_clears hclears
  · obtain ⟨row', hrow', hdefault'⟩ := hokt.kept ⟨.inr hphase, hclears⟩ hchanges
    obtain ⟨id, _, _, _, _, honly⟩ := h.one
    have ht : t.id = id := honly t.id row' hrow' hdefault'
    have hu : u.id = id := honly u.id row hrow hdefault
    rw [ht, hu]
  · -- Otherwise each of them has written the row of the first.
    by_contra hne
    obtain ⟨new, hnew, -⟩ := hokt.set hphase hclears hchanges
    obtain ⟨old, hold⟩ := Option.isSome_iff_exists.mp (hokt.exist t.id (by rw [hnew]; rfl))
    obtain ⟨other, hother, -⟩ := hok.others hclearing t.id old hold hne
    rw [hfree t.id (by rw [hother]; rfl)] at hnew
    cases hnew

/-- The rows that another transaction holds are as they were, so that what it has written
    fits the rows after the commit. -/
theorem ok_commit {j : Nat} {u : Transaction} (h : RegistryInv s)
    (hget : s.transactions[i]? = some t) (hphase : t.phase = .flushed)
    (hne : i ≠ j) (hgetu : s.transactions[j]? = some u) : u.Ok (commit s.rows t) := by
  have hokt : t.Ok s.rows := h.ok t (List.mem_of_getElem? hget)
  have hok : u.Ok s.rows := h.ok u (List.mem_of_getElem? hgetu)
  have hfree : ∀ id, (Table.get id u.writes).isSome → Table.get id t.writes = none := by
    intro id hu
    cases hw : Table.get id t.writes with
    | none => rfl
    | some w =>
        have ht : (Table.get id t.writes).isSome := by rw [hw]; rfl
        exact absurd (h.locks i j t u id hget hgetu ht hu) hne
  have hsame : ∀ id, (Table.get id u.writes).isSome →
      Table.get id (commit s.rows t) = Table.get id s.rows := fun id hu =>
    h.get_commit_of_unwritten (hfree id hu)
  have hkept : u.Clearing → u.changes.2 = none →
      ∃ row ∈ Table.get u.id (commit s.rows t), row.isDefault := by
    intro hclearing hchanges
    obtain ⟨row, hrow, hdefault⟩ := hok.kept hclearing hchanges
    cases hclears : t.request.clears with
    | false =>
        obtain ⟨row', hrow', hdefault', -⟩ :=
          h.default_of_plain hokt hphase hclears hrow hdefault
        exact ⟨row', hrow', hdefault'⟩
    | true =>
        have hid : t.id = u.id := h.clearing_eq hokt hok hphase hclears hfree hclearing hrow hdefault
        obtain ⟨row', hrow', hdefault', -⟩ := h.default_of_clears hokt hphase hclears
        rw [hid] at hrow'
        exact ⟨row', hrow', hdefault'⟩
  exact
    { idle := hok.idle
      unclear := hok.unclear
      accepted := hok.accepted
      exist := by
        intro id hu
        rw [hsame id hu]
        exact hok.exist id hu
      others := by
        intro hclearing id row hrow hid
        obtain ⟨row', hrow'⟩ : ∃ row', Table.get id s.rows = some row' := by
          rw [h.get_commit, Option.bind_eq_some_iff] at hrow
          obtain ⟨row', hrow', -⟩ := hrow
          exact ⟨row', hrow'⟩
        exact hok.others hclearing id row' hrow' hid
      kept := hkept
      own := hok.own
      set := hok.set
      unset := hok.unset
      plain := by
        intro hflushed hclears id w hw row hrow
        rw [hsame id (by rw [hw]; rfl)] at hrow
        exact hok.plain hflushed hclears id w hw row hrow }

theorem commit (h : RegistryInv s) (hget : s.transactions[i]? = some t)
    (hphase : t.phase = .flushed) :
    RegistryInv { s.put i { t with phase := .closed, writes := [] } with
      rows := Registry.commit s.rows t } where
  unique := h.unique.filterMap fun id row => (Table.get id t.writes).getD (some row)
  checked := fun id row => h.commit_checked (h.ok t (List.mem_of_getElem? hget)) hphase
  one := h.commit_one (h.ok t (List.mem_of_getElem? hget)) hphase
  ok := by
    intro u hu
    obtain ⟨j, hj⟩ := List.mem_iff_getElem?.mp hu
    obtain ⟨rfl, rfl⟩ | ⟨hne, hj⟩ := getElem?_set_cases hj
    · exact ok_closed (h.ok t (List.mem_of_getElem? hget)) _
    · exact h.ok_commit hget hphase hne hj
  locks := h.locks.set hget fun _ hw => by cases hw

theorem step {a : Action} {s' : Store} (h : RegistryInv s) (hgood : GuardHolds s a)
    (hstep : Registry.step s a = some s') : RegistryInv s' := by
  cases a with
  | load id request =>
      obtain ⟨value, -, hstep⟩ := Option.bind_eq_some_iff.mp hstep
      split at hstep
      next haccepts =>
        rw [Option.some.injEq] at hstep
        rw [← hstep]
        exact h.load haccepts
      next => cases hstep
  | move i m =>
      obtain ⟨t, hget, hstep⟩ := Option.bind_eq_some_iff.mp hstep
      cases m <;> simp only [moveStep] at hstep
      case clear =>
        split at hstep
        next hphase =>
          obtain ⟨t', hclear, rfl⟩ := Option.map_eq_some_iff.mp hstep
          exact h.clear hget hphase (hgood t hget) hclear
        next => cases hstep
      case flush =>
        split at hstep
        next hphase =>
          obtain ⟨t', hflush, rfl⟩ := Option.map_eq_some_iff.mp hstep
          exact h.flush hget hphase (hgood t hget) hflush
        next => cases hstep
      case commit =>
        split at hstep
        next hphase =>
          rw [Option.some.injEq] at hstep
          rw [← hstep]
          exact h.commit hget hphase
        next => cases hstep
      case rollback =>
        rw [Option.some.injEq] at hstep
        rw [← hstep]
        exact h.rollback hget

theorem init (h : system.init s) : RegistryInv s := by
  obtain ⟨hunique, hchecked, hone, hnil⟩ := h
  exact
    { unique := hunique
      checked := fun id row hrow => hchecked (id, row) (Table.mem_of_get hrow)
      one := hone
      ok := by
        rw [hnil]
        exact fun _ ht => by cases ht
      locks := by
        rw [hnil]
        exact Exclusive.nil }

end RegistryInv

/-- **The default model is kept.** Where the guard of a request still holds when it writes,
    every state has exactly one default registration, and it is enabled. -/
theorem default_kept {s : Store} (h : system.Reachable GuardHolds s) : OneDefault s.rows :=
  (h.invariant RegistryInv (fun _ => RegistryInv.init)
    fun _ _ _ hinv hgood hstep => hinv.step hgood hstep).one

/-! ## Runs -/

def twoModels : Store :=
  { rows := [("a", ⟨true, true⟩), ("b", ⟨true, false⟩)]
    transactions := [] }

theorem twoModels_init : system.init twoModels := by
  have hunique : (twoModels.rows.map Prod.fst).Nodup := by decide
  refine ⟨hunique, by decide, ⟨"a", ⟨true, true⟩, by decide, rfl, rfl, ?_⟩, rfl⟩
  intro other row hrow hdefault
  have hmem : (other, row) ∈ twoModels.rows := Table.mem_of_get hrow
  simp only [twoModels, List.mem_cons, List.not_mem_nil, or_false, Prod.mk.injEq] at hmem
  obtain ⟨hother, -⟩ | ⟨-, rfl⟩ := hmem
  · exact hother
  · cases hdefault

def statements (i : Nat) : List Action := [.move i .clear, .move i .flush, .move i .commit]

/-- The default goes to the other row, and an update of the first one is in the middle of it. -/
def setDefaultRun : List Action :=
  [.load "b" .setDefault, .load "a" (.update (some true) none true), .move 0 .clear,
    .move 1 .clear, .move 0 .flush, .move 0 .commit, .move 1 .flush, .move 1 .commit]

theorem default_kept_setDefaultRun : ∃ s, system.exec twoModels setDefaultRun = some s ∧
    s.rows = [("a", ⟨true, false⟩), ("b", ⟨true, true⟩)] ∧ OneDefault s.rows := by
  refine ⟨_, rfl, by decide, ?_⟩
  apply default_kept
  exact ⟨twoModels, twoModels_init, System.path_of_allowed setDefaultRun (by decide) rfl⟩

/-- The row is not the default when it is loaded, and is deleted as the default. -/
def staleDelete : List Action :=
  [.load "b" .delete, .load "b" .setDefault] ++ statements 1 ++ statements 0

/-- The row is the default when it is loaded, so that its flag is not written. -/
def staleUpdate : List Action :=
  [.load "a" (.update none (some true) true), .load "b" .setDefault] ++ statements 1 ++
    statements 0

theorem not_oneDefault {rows : List (String × Row)} (h : ∀ e ∈ rows, e.2.isDefault = false) :
    ¬ OneDefault rows := by
  rintro ⟨id, row, hrow, hdefault, -⟩
  have hfalse : row.isDefault = false := h (id, row) (Table.mem_of_get hrow)
  simp [hdefault] at hfalse

theorem stale_guards_lose_default :
    (∃ s, system.exec twoModels staleDelete = some s ∧
      system.Reachable System.anyStep s ∧ s.rows = [("a", ⟨true, false⟩)] ∧
      ¬ OneDefault s.rows) ∧
    ∃ s, system.exec twoModels staleUpdate = some s ∧
      system.Reachable System.anyStep s ∧
      s.rows = [("a", ⟨true, false⟩), ("b", ⟨true, false⟩)] ∧ ¬ OneDefault s.rows := by
  refine ⟨⟨_, rfl, ?_, by decide, not_oneDefault (by decide)⟩, _, rfl, ?_, by decide,
    not_oneDefault (by decide)⟩
  · exact ⟨twoModels, twoModels_init, System.path_of_exec staleDelete rfl⟩
  · exact ⟨twoModels, twoModels_init, System.path_of_exec staleUpdate rfl⟩

end Registry
end HermesPlatform
