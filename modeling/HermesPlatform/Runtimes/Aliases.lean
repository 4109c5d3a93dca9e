/-
  HermesPlatform.Runtimes.Aliases

  The tool aliases of the Hermes runtime: `register_run` counts the runs that use
  an alias and registers it with the first of them, `unregister_run` takes the run
  out of the counts again.

  The tool registry is not part of this repository: a call of `get_entry` or
  `register` may raise, and one that raises has changed nothing.

  A registration that fails takes every alias of the run back, also those that it
  had not reached.  The counts are exact in the runs in which no active run holds
  an alias that a failing registration does not reach.
-/

import HermesPlatform.Lib.Json
import HermesPlatform.Lib.Python
import HermesPlatform.Lib.RefCount
import HermesPlatform.Lib.Transition

namespace HermesPlatform
namespace Runtimes

open Python RefCount Transition

/-! ## The module's state -/

structure Tool where
  toolName : String
  description : String
  inputSchema : Json

/-- The context of a run, as `pop_platform_context` returns it. -/
structure Context where
  executionId : String
  token : String
  tools : List Tool

structure RunBinding where
  runId : String
  sessionId : String
  executionId : String
  token : String
  tools : Dict String Tool
  active : Bool

/-- What stands under a name: its count in `_ALIASES`, and the toolset of its
    entry in the tool registry. -/
structure Registration where
  count : Option Nat
  toolset : Option String
deriving DecidableEq, Repr

/-- The state of the module.  `_BINDINGS` leads from an identity to the index of a
    binding, which several identities share. -/
structure PlatformState where
  objects : List RunBinding
  bindings : String → Option Nat
  aliases : String → Registration

/-- The calls of the tool registry that raise. -/
structure RegistryFaults where
  getEntry : String → Bool
  register : String → Bool

inductive RegisterError where
  | platformCapability (message : String)
  | registry
deriving DecidableEq, Repr

def platformToolset : String := "mcp-hermes-platform"

/-! ## `register_run` -/

/-- A tool of another toolset has the name. -/
def Registration.conflicts (r : Registration) : Bool :=
  match r.toolset with
  | none => false
  | some toolset => toolset ≠ platformToolset

/-- `registry.register(..)`, with a count of 0. -/
def Registration.register (_ : Registration) : Registration := ⟨some 0, some platformToolset⟩

def Registration.increment (r : Registration) : Registration :=
  { r with count := r.count.map (· + 1) }

/-- An alias that is not counted is registered first. -/
def Registration.acquire (r : Registration) : Registration :=
  if r.count = none then r.register.increment else r.increment

/-- The loop raises at the alias. -/
def blocked (faults : RegistryFaults) (aliases : String → Registration) (name : String) :
    Option RegisterError :=
  if faults.getEntry name then some .registry
  else if (aliases name).conflicts then
    some (.platformCapability ("Capability alias conflicts with Hermes tool: " ++ name))
  else if (aliases name).count = none ∧ faults.register name then some .registry
  else none

/-- The loop over the aliases: what it has counted and `registered`, and the
    exception that ended it. -/
def acquireAliases (faults : RegistryFaults) :
    List String → (String → Registration) → List String →
      (String → Registration) × List String × Option RegisterError
  | [], aliases, registered => (aliases, registered, none)
  | name :: rest, aliases, registered =>
      match blocked faults aliases name with
      | some e => (aliases, registered, some e)
      | none =>
          acquireAliases faults rest
            (Function.update aliases name (aliases name).acquire)
            (if (aliases name).count = none then registered ++ [name] else registered)

/-- The handler of an exception, for one alias of the run. -/
def undo (registered : List String) (name : String) (r : Registration) : Registration :=
  let r := if 0 < r.count.getD 0 then { r with count := r.count.map (· - 1) } else r
  if name ∈ registered ∧ r.count = some 0 then ⟨none, none⟩ else r

/-- The run or its session has a binding. -/
def PlatformState.identityActive (st : PlatformState) (runId sessionId : String) : Bool :=
  (st.bindings runId).isSome || (sessionId ≠ runId && (st.bindings sessionId).isSome)

def Context.toolsByName (context : Context) : Dict String Tool :=
  Dict.ofPairs (context.tools.map fun tool => (tool.toolName, tool))

def Context.binding (context : Context) (runId sessionId : String) : RunBinding :=
  ⟨runId, sessionId, context.executionId, context.token, context.toolsByName, true⟩

/-- The run is entered under its identities. -/
def PlatformState.enter (st : PlatformState) (binding : RunBinding) : PlatformState :=
  let index := st.objects.length
  let bindings := Function.update st.bindings binding.runId (some index)
  { st with
    objects := st.objects ++ [binding]
    bindings :=
      if binding.sessionId ≠ binding.runId then Function.update bindings binding.sessionId (some index)
      else bindings }

/-- `register_run`: the state it leaves, and the exception it raises. -/
def registerRun (faults : RegistryFaults) (st : PlatformState) (runId sessionId : String)
    (context : Option Context) : PlatformState × Option RegisterError :=
  match context with
  | none => (st, none)
  | some context =>
      if context.tools = [] then (st, none)
      else if st.identityActive runId sessionId then
        (st, some (.platformCapability "Hermes Capability run identity is already active"))
      else
        let names := context.toolsByName.keys
        match acquireAliases faults names st.aliases [] with
        | (aliases, registered, some e) =>
            ({ st with aliases := updateAll (undo registered) names aliases }, some e)
        | (aliases, _, none) =>
            ({ st with aliases := aliases }.enter (context.binding runId sessionId), none)

/-! ## `unregister_run` -/

/-- The last run that uses an alias takes it out of the registry. -/
def Registration.release (r : Registration) : Registration :=
  let remaining : Int := (r.count.getD 0 : Int) - 1
  if remaining ≤ 0 then ⟨none, none⟩ else { r with count := some remaining.toNat }

def RunBinding.retire (b : RunBinding) : RunBinding :=
  { b with active := false, token := "", tools := Dict.empty }

/-- The binding of an identity, with its index. -/
def PlatformState.binding? (st : PlatformState) (key : String) : Option (Nat × RunBinding) :=
  (st.bindings key).bind fun index => (st.objects[index]?).map fun b => (index, b)

/-- `unregister_run`. -/
def unregisterRun (st : PlatformState) (runId : String) : PlatformState :=
  match st.binding? runId with
  | none => st
  | some (index, b) =>
      let bindings := Function.update st.bindings runId none
      { objects := st.objects.set index b.retire
        bindings :=
          if b.sessionId ≠ runId ∧ bindings b.sessionId = some index then
            Function.update bindings b.sessionId none
          else bindings
        aliases := updateAll (fun _ r => r.release) b.tools.keys st.aliases }

/-! ## Runs of the module -/

inductive Call where
  | register (faults : RegistryFaults) (runId sessionId : String) (context : Option Context)
  | unregister (runId : String)

/-- A process starts with nothing counted, and without an alias in the registry. -/
def PlatformState.Fresh (st : PlatformState) : Prop :=
  st.objects = [] ∧ (∀ key, st.bindings key = none) ∧
    ∀ name, (st.aliases name).count = none ∧ (st.aliases name).toolset ≠ some platformToolset

/-- The calls, in any order; one that raises is a step too. -/
def aliasSystem : System PlatformState Call where
  init := PlatformState.Fresh
  step st
    | .register faults runId sessionId context =>
        some (registerRun faults st runId sessionId context).1
    | .unregister runId => some (unregisterRun st runId)

/-- The run is active and holds the alias. -/
def RunBinding.holds (b : RunBinding) (name : String) : Bool := b.active && name ∈ b.tools.keys

/-- The number of active runs that hold the alias. -/
def PlatformState.holders (st : PlatformState) (name : String) : Nat :=
  RefCount.holders RunBinding.holds st.objects name

/-- The count of an alias; one that is not counted has none. -/
def PlatformState.count (st : PlatformState) (name : String) : Nat :=
  (st.aliases name).count.getD 0

def PlatformState.Registered (st : PlatformState) (name : String) : Prop :=
  (st.aliases name).toolset = some platformToolset

/-- The aliases of the run from the first at which the loop raises. -/
def unreached (faults : RegistryFaults) (st : PlatformState) (context : Context) : List String :=
  context.toolsByName.keys.dropWhile fun name => blocked faults st.aliases name = none

/-- A registration that fails at an alias leaves only aliases behind that no active
    run holds. -/
def UnreachedFree (st : PlatformState) : Call → Prop
  | .register faults runId sessionId (some context) =>
      st.identityActive runId sessionId = false →
        ∀ name ∈ unreached faults st context, st.holders name = 0
  | _ => True

instance (st : PlatformState) (call : Call) : Decidable (UnreachedFree st call) :=
  match call with
  | .register faults runId sessionId (some context) =>
      inferInstanceAs (Decidable (st.identityActive runId sessionId = false →
        ∀ name ∈ unreached faults st context, st.holders name = 0))
  | .register _ _ _ none => isTrue trivial
  | .unregister _ => isTrue trivial

/-! ## One name -/

/-- A name is registered just while it is counted, and counted only while it is used. -/
def Registration.Sound (r : Registration) : Prop :=
  r.count ≠ some 0 ∧ (r.toolset = some platformToolset ↔ r.count ≠ none)

theorem acquire_sound {r : Registration} (h : r.Sound) : r.acquire.Sound := by
  obtain ⟨count, toolset⟩ := r
  cases count with
  | none =>
      show Registration.Sound ⟨some 1, some platformToolset⟩
      exact ⟨by decide, by decide⟩
  | some n =>
      obtain ⟨-, hregistered⟩ := h
      refine ⟨by simp [Registration.acquire, Registration.increment], ?_⟩
      simpa [Registration.acquire, Registration.increment] using hregistered

theorem count_acquire (r : Registration) : r.acquire.count.getD 0 = r.count.getD 0 + 1 := by
  obtain ⟨count, toolset⟩ := r
  cases count with
  | none => rfl
  | some n => rfl

theorem release_sound {r : Registration} (h : r.Sound) : r.release.Sound := by
  unfold Registration.release
  dsimp only
  split
  · exact ⟨by decide, by decide⟩
  · rename_i hremaining
    obtain ⟨count, toolset⟩ := r
    cases count with
    | none => exact absurd (by simp) hremaining
    | some n =>
        obtain ⟨-, hregistered⟩ := h
        refine ⟨?_, by simpa using hregistered⟩
        simp only [Option.getD_some, ne_eq, Option.some.injEq] at hremaining ⊢
        omega

theorem count_release (r : Registration) : r.release.count.getD 0 = r.count.getD 0 - 1 := by
  unfold Registration.release
  dsimp only
  split
  · rename_i hremaining
    show 0 = r.count.getD 0 - 1
    omega
  · show ((r.count.getD 0 : Int) - 1).toNat = r.count.getD 0 - 1
    omega

/-- What the handler does to a name that the loop had counted. -/
theorem undo_acquire {r : Registration} (h : r.Sound) (hfree : r.conflicts = false)
    {registered : List String} {name : String} (hname : name ∈ registered ↔ r.count = none) :
    undo registered name r.acquire = r := by
  obtain ⟨count, toolset⟩ := r
  cases count with
  | none =>
      -- Not counted and without a conflict: nothing stands under the name.
      have htoolset : toolset = none := by
        cases toolset with
        | none => rfl
        | some t =>
            have ht : t = platformToolset := by simpa [Registration.conflicts] using hfree
            exact absurd rfl (h.2.mp (congrArg some ht))
      subst htoolset
      simp [undo, Registration.acquire, Registration.register, Registration.increment, hname]
  | some n =>
      have hnot : name ∉ registered := by rw [hname]; exact Option.some_ne_none n
      simp [undo, Registration.acquire, Registration.increment, hnot]

/-- What the handler does to a name that the loop had not reached. -/
theorem undo_unreached {r : Registration} {registered : List String} {name : String}
    (hname : name ∉ registered) : undo registered name r = r ↔ r.count.getD 0 = 0 := by
  obtain ⟨count, toolset⟩ := r
  cases count with
  | none => simp [undo, hname]
  | some n =>
      simp only [undo, Option.getD_some, hname, false_and, if_false]
      split
      · rename_i hpos
        simp only [Option.map_some, Registration.mk.injEq, Option.some.injEq, and_true]
        omega
      · rename_i hzero
        exact iff_of_true rfl (by omega)

/-! ## The loop -/

/-- How the loop over the aliases ends: it has counted the `reached` ones, and the
    first of the `rest` is one at which it raises. -/
structure LoopEnd (faults : RegistryFaults) (names : List String) (aliases : String → Registration)
    (registered : List String) (out : (String → Registration) × List String × Option RegisterError)
    (reached rest : List String) : Prop where
  split : names = reached ++ rest
  free : ∀ name ∈ reached, blocked faults aliases name = none
  stop : ∀ name ∈ rest.head?, blocked faults aliases name ≠ none
  counted : out.1 = updateAll (fun _ r => r.acquire) reached aliases
  fresh : out.2.1 = registered ++ reached.filter fun name => (aliases name).count = none
  error : out.2.2 = rest.head?.bind fun name => blocked faults aliases name

/-- Only the entry of the name itself decides whether the loop raises there. -/
theorem blocked_congr {faults : RegistryFaults} {aliases aliases' : String → Registration}
    {name : String} (h : aliases name = aliases' name) :
    blocked faults aliases name = blocked faults aliases' name := by
  rw [blocked, h, blocked]

theorem acquireAliases_end (faults : RegistryFaults) {names : List String} (hnodup : names.Nodup)
    (aliases : String → Registration) (registered : List String) :
    ∃ reached rest, LoopEnd faults names aliases registered
      (acquireAliases faults names aliases registered) reached rest := by
  induction names generalizing aliases registered with
  | nil => exact ⟨[], [], rfl, by simp, by simp, rfl, by simp [acquireAliases], rfl⟩
  | cons name names ih =>
      obtain ⟨hname, hnodup⟩ := List.nodup_cons.mp hnodup
      rw [acquireAliases]
      cases hblocked : blocked faults aliases name with
      | some e =>
          refine ⟨[], name :: names, rfl, by simp, ?_, rfl, by simp, ?_⟩
          · simp [hblocked]
          · simp [hblocked]
      | none =>
          obtain ⟨reached, rest, hend⟩ := ih hnodup
            (Function.update aliases name (aliases name).acquire)
            (if (aliases name).count = none then registered ++ [name] else registered)
          -- The other names are as they were.
          have hother : ∀ n ∈ names,
              Function.update aliases name (aliases name).acquire n = aliases n := by
            intro n hn
            have hne : n ≠ name := fun heq => hname (heq ▸ hn)
            exact Function.update_of_ne hne _ _
          have hreached : ∀ n ∈ reached, n ∈ names := by
            intro n hn
            rw [hend.split]
            exact List.mem_append_left _ hn
          have hrest : ∀ n ∈ rest.head?, n ∈ names := by
            intro n hn
            rw [hend.split]
            exact List.mem_append_right _ (List.mem_of_mem_head? hn)
          refine ⟨name :: reached, rest, ?_, ?_, ?_, hend.counted, ?_, ?_⟩
          · rw [hend.split, List.cons_append]
          · intro n hn
            rcases List.mem_cons.mp hn with rfl | hn
            · exact hblocked
            · rw [← blocked_congr (hother n (hreached n hn))]
              exact hend.free n hn
          · intro n hn
            rw [← blocked_congr (hother n (hrest n hn))]
            exact hend.stop n hn
          · have hfilter : (reached.filter fun n =>
                (Function.update aliases name (aliases name).acquire n).count = none) =
                reached.filter fun n => (aliases n).count = none := by
              refine List.filter_congr ?_
              intro n hn
              rw [hother n (hreached n hn)]
            rw [hend.fresh, hfilter, List.filter_cons]
            by_cases hcount : (aliases name).count = none
            · simp [hcount]
            · simp [hcount]
          · rw [hend.error]
            cases hhead : rest.head? with
            | none => rfl
            | some n =>
                exact blocked_congr (hother n (hrest n hhead))

theorem dropWhile_eq_of_split {α : Type} {p : α → Bool} {l reached rest : List α}
    (hsplit : l = reached ++ rest) (hreached : ∀ a ∈ reached, p a = true)
    (hrest : ∀ a ∈ rest.head?, p a = false) : l.dropWhile p = rest := by
  rw [hsplit, List.dropWhile_append_of_pos hreached]
  cases rest with
  | nil => rfl
  | cons a rest =>
      rw [List.dropWhile_cons_of_neg]
      rw [hrest a rfl]
      exact Bool.false_ne_true

/-! ## Registration and removal -/

/-- The counts of a state are exact; a run that is not active has no tools. -/
structure Consistent (st : PlatformState) : Prop where
  sound : ∀ name, (st.aliases name).Sound
  count : ∀ name, st.count name = st.holders name
  retired : ∀ b ∈ st.objects, b.active = false → b.tools.keys = []

theorem fresh_consistent {st : PlatformState} (h : st.Fresh) : Consistent st := by
  obtain ⟨hobjects, -, haliases⟩ := h
  refine ⟨?_, ?_, ?_⟩
  · intro name
    obtain ⟨hcount, htoolset⟩ := haliases name
    refine ⟨by rw [hcount]; decide, ?_⟩
    simp [hcount, htoolset]
  · intro name
    rw [PlatformState.count, (haliases name).1, PlatformState.holders, hobjects]
    rfl
  · intro b hb
    rw [hobjects] at hb
    cases hb

theorem registered_iff {st : PlatformState} (h : Consistent st) (name : String) :
    st.Registered name ↔ 0 < st.count name := by
  obtain ⟨hzero, hregistered⟩ := h.sound name
  rw [PlatformState.Registered, hregistered, PlatformState.count]
  cases hcount : (st.aliases name).count with
  | none => simp
  | some n =>
      rw [hcount, ne_eq, Option.some.injEq] at hzero
      simp only [Option.getD_some]
      exact iff_of_true (Option.some_ne_none n) (Nat.pos_of_ne_zero hzero)

/-- What `register_run` does once its arguments have been checked. -/
inductive RegisterCases (faults : RegistryFaults) (st : PlatformState) (runId sessionId : String)
    (context : Option Context) (out : PlatformState × Option RegisterError) : Prop where
  | idle (same : out.1 = st) (free : UnreachedFree st (.register faults runId sessionId context))
  | entered {ctx : Context} (given : context = some ctx)
      (all : unreached faults st ctx = [])
      (done : out = ({ st with
        aliases := updateAll (fun _ r => r.acquire) ctx.toolsByName.keys st.aliases }.enter
          (ctx.binding runId sessionId), none))
  | failed {ctx : Context} {reached : List String} {e : RegisterError}
      (given : context = some ctx) (identity : st.identityActive runId sessionId = false)
      (split : ctx.toolsByName.keys = reached ++ unreached faults st ctx)
      (free : ∀ name ∈ reached, blocked faults st.aliases name = none)
      (undone : out = ({ st with
        aliases := updateAll (undo (reached.filter fun name => (st.aliases name).count = none))
          ctx.toolsByName.keys (updateAll (fun _ r => r.acquire) reached st.aliases) }, some e))

theorem registerRun_cases (faults : RegistryFaults) (st : PlatformState) (runId sessionId : String)
    (context : Option Context) :
    RegisterCases faults st runId sessionId context
      (registerRun faults st runId sessionId context) := by
  cases context with
  | none => exact .idle rfl trivial
  | some ctx =>
      by_cases htools : ctx.tools = []
      · refine .idle (by rw [registerRun, if_pos htools]) ?_
        intro _ name hname
        have hempty : ctx.toolsByName.keys = [] := by
          rw [Context.toolsByName, htools]
          rfl
        rw [unreached, hempty] at hname
        cases hname
      by_cases hidentity : st.identityActive runId sessionId = true
      · refine .idle (by rw [registerRun, if_neg htools, if_pos hidentity]) ?_
        intro hfree
        rw [hidentity] at hfree
        cases hfree
      obtain ⟨reached, rest, hend⟩ :=
        acquireAliases_end faults ctx.toolsByName.nodup_keys st.aliases []
      have hrest : unreached faults st ctx = rest := by
        refine dropWhile_eq_of_split hend.split ?_ ?_
        · intro name hname
          simp [hend.free name hname]
        · intro name hname
          simp [hend.stop name hname]
      have hrun : registerRun faults st runId sessionId (some ctx) =
          match acquireAliases faults ctx.toolsByName.keys st.aliases [] with
          | (aliases, registered, some e) =>
              ({ st with aliases := updateAll (undo registered) ctx.toolsByName.keys aliases },
                some e)
          | (aliases, _, none) =>
              ({ st with aliases := aliases }.enter (ctx.binding runId sessionId), none) := by
        rw [registerRun, if_neg htools, if_neg hidentity]
      generalize acquireAliases faults ctx.toolsByName.keys st.aliases [] = out at hend hrun
      obtain ⟨aliases, registered, error⟩ := out
      obtain rfl : aliases = updateAll (fun _ r => r.acquire) reached st.aliases := hend.counted
      obtain rfl : registered = reached.filter fun name => (st.aliases name).count = none := hend.fresh
      have herror : error = rest.head?.bind fun name => blocked faults st.aliases name := hend.error
      cases rest with
      | nil =>
          obtain rfl : error = none := herror
          have hsplit : ctx.toolsByName.keys = reached := by rw [hend.split, List.append_nil]
          rw [← hsplit] at hrun
          exact .entered rfl hrest hrun
      | cons name tail =>
          obtain ⟨e, hblocked⟩ := Option.ne_none_iff_exists'.mp (hend.stop name rfl)
          obtain rfl : error = some e := herror.trans hblocked
          exact .failed rfl (Bool.not_eq_true _ ▸ hidentity) (hrest ▸ hend.split) hend.free hrun

/-- A run that has been entered is counted with each of its aliases. -/
theorem consistent_enter {st : PlatformState} (h : Consistent st) {ctx : Context}
    {runId sessionId : String} :
    Consistent ({ st with
      aliases := updateAll (fun _ r => r.acquire) ctx.toolsByName.keys st.aliases }.enter
        (ctx.binding runId sessionId)) := by
  have haliases := updateAll_apply (fun _ r => Registration.acquire r) ctx.toolsByName.nodup_keys
    st.aliases
  have hholds : ∀ name, (ctx.binding runId sessionId).holds name = true ↔
      name ∈ ctx.toolsByName.keys := by
    intro name
    rw [RunBinding.holds, Context.binding, Bool.true_and]
    exact decide_eq_true_iff
  refine ⟨?_, ?_, ?_⟩
  · intro name
    show (updateAll (fun _ r => Registration.acquire r) ctx.toolsByName.keys st.aliases name).Sound
    rw [haliases]
    split
    · exact acquire_sound (h.sound name)
    · exact h.sound name
  · intro name
    show (updateAll (fun _ r => Registration.acquire r) ctx.toolsByName.keys st.aliases name).count.getD 0 =
      RefCount.holders RunBinding.holds (st.objects ++ [ctx.binding runId sessionId]) name
    have hcount : (st.aliases name).count.getD 0 =
        RefCount.holders RunBinding.holds st.objects name := h.count name
    rw [holders_concat, ← hcount, haliases]
    by_cases hname : name ∈ ctx.toolsByName.keys
    · rw [if_pos hname, if_pos ((hholds name).mpr hname), count_acquire]
    · rw [if_neg hname, if_neg (fun hb => hname ((hholds name).mp hb)), Nat.add_zero]
  · intro b hb hactive
    rcases List.mem_append.mp hb with hb | hb
    · exact h.retired b hb hactive
    · obtain rfl := List.mem_singleton.mp hb
      cases hactive

/-- A registration that raises at an alias leaves the counts as they were just when
    no active run holds an alias that it had not reached. -/
theorem undone_iff {st : PlatformState} (h : Consistent st) {faults : RegistryFaults}
    {names reached rest : List String} (hnodup : names.Nodup) (hsplit : names = reached ++ rest)
    (hfree : ∀ name ∈ reached, blocked faults st.aliases name = none) :
    updateAll (undo (reached.filter fun name => (st.aliases name).count = none)) names
        (updateAll (fun _ r => r.acquire) reached st.aliases) = st.aliases ↔
      ∀ name ∈ rest, st.holders name = 0 := by
  have hdisjoint : ∀ name ∈ rest, name ∉ reached := by
    intro name hname hin
    rw [hsplit] at hnodup
    exact List.disjoint_of_nodup_append hnodup hin hname
  have hreached : reached.Nodup := by
    rw [hsplit] at hnodup
    exact hnodup.of_append_left
  have hback : ∀ name ∈ reached,
      undo (reached.filter fun name => (st.aliases name).count = none) name
        (st.aliases name).acquire = st.aliases name := by
    intro name hname
    refine undo_acquire (h.sound name) ?_ ?_
    · have hb := hfree name hname
      unfold blocked at hb
      split at hb
      · cases hb
      · split at hb
        · cases hb
        · rename_i hconflicts
          exact Bool.not_eq_true _ ▸ hconflicts
    · simp [hname]
  have hafter := updateAll_apply
    (undo (reached.filter fun name => (st.aliases name).count = none)) hnodup
    (updateAll (fun _ r => r.acquire) reached st.aliases)
  have hrest : ∀ name ∈ rest, updateAll (fun _ r => Registration.acquire r) reached st.aliases name =
      st.aliases name := fun name hname => updateAll_of_notMem (hdisjoint name hname)
  refine ⟨?_, ?_⟩
  · intro hsame name hname
    have hat := congrFun hsame name
    rw [hafter, if_pos (hsplit ▸ List.mem_append_right _ hname), hrest name hname,
      undo_unreached] at hat
    · exact (h.count name).symm.trans hat
    · intro hin
      exact hdisjoint name hname (List.mem_of_mem_filter hin)
  · intro hzero
    funext name
    rw [hafter]
    split
    · rename_i hname
      rcases List.mem_append.mp (hsplit ▸ hname) with hin | hin
      · rw [updateAll_of_mem hreached hin]
        exact hback name hin
      · rw [hrest name hin, undo_unreached]
        · exact (h.count name).trans (hzero name hin)
        · intro hin'
          exact hdisjoint name hin (List.mem_of_mem_filter hin')
    · rename_i hname
      rw [hsplit, List.mem_append, not_or] at hname
      exact updateAll_of_notMem hname.1

theorem consistent_register {st : PlatformState} (h : Consistent st) {faults : RegistryFaults}
    {runId sessionId : String} {context : Option Context}
    (hfree : UnreachedFree st (.register faults runId sessionId context)) :
    Consistent (registerRun faults st runId sessionId context).1 := by
  cases registerRun_cases faults st runId sessionId context with
  | idle same _ => rw [same]; exact h
  | entered _ _ done => rw [done]; exact consistent_enter h
  | failed given identity split free undone =>
      subst given
      rw [undone, (undone_iff h (Dict.nodup_keys _) split free).mpr (hfree identity)]
      exact h

theorem binding?_eq {st : PlatformState} {key : String} {index : Nat} {b : RunBinding}
    (h : st.binding? key = some (index, b)) : st.objects[index]? = some b := by
  obtain ⟨i, -, h⟩ := Option.bind_eq_some_iff.mp h
  obtain ⟨b', hb', heq⟩ := Option.map_eq_some_iff.mp h
  cases heq
  exact hb'

theorem consistent_unregister {st : PlatformState} (h : Consistent st) (runId : String) :
    Consistent (unregisterRun st runId) := by
  unfold unregisterRun
  cases hbinding : st.binding? runId with
  | none => exact h
  | some found =>
      obtain ⟨index, b⟩ := found
      have hat : st.objects[index]? = some b := binding?_eq hbinding
      have haliases := updateAll_apply (fun _ r => Registration.release r) b.tools.nodup_keys
        st.aliases
      refine ⟨?_, ?_, ?_⟩
      · intro name
        show (updateAll (fun _ r => Registration.release r) b.tools.keys st.aliases name).Sound
        rw [haliases]
        split
        · exact release_sound (h.sound name)
        · exact h.sound name
      · intro name
        show (updateAll (fun _ r => Registration.release r) b.tools.keys st.aliases name).count.getD 0 =
          RefCount.holders RunBinding.holds (st.objects.set index b.retire) name
        have hcount : (st.aliases name).count.getD 0 =
            RefCount.holders RunBinding.holds st.objects name := h.count name
        -- A run that was not active any more has no alias left to give back.
        have hholds : b.holds name = true ↔ name ∈ b.tools.keys := by
          rw [RunBinding.holds]
          cases hactive : b.active with
          | true => rw [Bool.true_and]; exact decide_eq_true_iff
          | false => simp [h.retired b (List.mem_of_getElem? hat) hactive]
        rw [holders_set _ hat rfl, ← hcount, haliases]
        by_cases hname : name ∈ b.tools.keys
        · rw [if_pos hname, if_pos (hholds.mpr hname), count_release]
        · rw [if_neg hname, if_neg (fun hb => hname (hholds.mp hb)), Nat.sub_zero]
      · intro b' hb' hactive
        rcases List.mem_or_eq_of_mem_set hb' with hb' | rfl
        · exact h.retired b' hb' hactive
        · rfl

theorem consistent_reachable {st : PlatformState} (h : aliasSystem.Reachable UnreachedFree st) :
    Consistent st := by
  refine h.invariant Consistent (fun _ => fresh_consistent) ?_
  intro s call t hs hfree hstep
  cases call with
  | register faults runId sessionId context =>
      obtain rfl := Option.some.inj hstep
      exact consistent_register hs hfree
  | unregister runId =>
      obtain rfl := Option.some.inj hstep
      exact consistent_unregister hs runId

/-- What the module promises of a state: exact counts, and registrations that fail
    without a trace. -/
def ExactCounts (st : PlatformState) : Prop :=
  ∀ name, st.count name = st.holders name ∧ (st.Registered name ↔ 0 < st.count name)

/-- **Alias counting.** Where failing registrations leave only aliases behind that no
    active run holds, the counts are exact in every state, and a registration that
    raises changes nothing; any other one that raises does change the counts. -/
theorem alias_counts {st : PlatformState} (h : aliasSystem.Reachable UnreachedFree st) :
    ExactCounts st ∧ ∀ faults runId sessionId context,
      (registerRun faults st runId sessionId context).2 ≠ none →
        ((registerRun faults st runId sessionId context).1 = st ↔
          UnreachedFree st (.register faults runId sessionId context)) := by
  have hconsistent := consistent_reachable h
  refine ⟨fun name => ⟨hconsistent.count name, registered_iff hconsistent name⟩, ?_⟩
  intro faults runId sessionId context hraises
  cases registerRun_cases faults st runId sessionId context with
  | idle same free => exact iff_of_true same free
  | entered _ _ done =>
      rw [done] at hraises
      exact absurd rfl hraises
  | failed given identity split free undone =>
      subst given
      have hundone := undone_iff hconsistent (Dict.nodup_keys _) split free
      rw [undone]
      refine ⟨?_, ?_⟩
      · intro hsame _
        exact hundone.mp (congrArg PlatformState.aliases hsame)
      · intro hfree
        rw [hundone.mpr (hfree identity)]

/-- A process whose registry has a tool of its own. -/
def started : PlatformState :=
  ⟨[], fun _ => none, fun name => ⟨none, if name = "terminal" then some "hermes-cli" else none⟩⟩

theorem started_fresh : started.Fresh := by
  refine ⟨rfl, fun _ => rfl, ?_⟩
  intro name
  refine ⟨rfl, ?_⟩
  show (if name = "terminal" then some "hermes-cli" else none) ≠ some platformToolset
  split
  · decide
  · decide

def call (runId : String) (names : List String) : Call :=
  .register ⟨fun _ => false, fun _ => false⟩ runId runId
    (some ⟨"execution", "token", names.map fun name => ⟨name, name, .object []⟩⟩)

/-- The second run fails at its last alias. -/
def sharedThenConflict : List Call :=
  [call "run-1" ["db_select"], call "run-2" ["db_select", "terminal"]]

theorem alias_counts_shared :
    ∃ st, aliasSystem.exec started sharedThenConflict = some st ∧ ExactCounts st ∧
      st.count "db_select" = 1 := by
  refine ⟨_, rfl, ?_, ?_⟩
  · exact (alias_counts ⟨started, started_fresh, System.path_of_allowed sharedThenConflict
      (by decide) rfl⟩).1
  · decide

/-- The second run fails at its first alias. -/
def conflictThenShared : List Call :=
  [call "run-1" ["db_select"], call "run-2" ["terminal", "db_select"]]

/-- The alias of the active run loses its count, and nobody else uses it. -/
theorem shared_count_lost :
    ¬ ∀ st, aliasSystem.Reachable System.anyStep st →
      ExactCounts st ∧ ∀ faults runId sessionId context,
        (registerRun faults st runId sessionId context).2 ≠ none →
          (registerRun faults st runId sessionId context).1 = st := by
  intro hclaim
  have hcounts := (hclaim _ ⟨started, started_fresh,
    System.path_of_exec conflictThenShared rfl⟩).1 "db_select"
  exact absurd hcounts.1 (by decide)

end Runtimes
end HermesPlatform
