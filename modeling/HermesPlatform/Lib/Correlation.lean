/-
  HermesPlatform.Lib.Correlation

  Requests and replies on a connection that keeps their order.

  A client numbers its requests and waits for each; a server answers them one after the other,
  or drops one.  A reply settles the request with its number, if it is still waited for.  In every
  reachable state a request is settled at most once, with the answer to itself (`Consistent`), and
  one that is waited for is on its way, or has been dropped, or the server has stopped.
-/

import HermesPlatform.Lib.Transition
import Mathlib.Data.List.Nodup

namespace HermesPlatform
namespace Correlation

open Transition

variable {Req Res : Type}

/-- Both ends and what is between them.  Requests are known by their numbers. -/
structure Exchange (Req Res : Type) where
  /-- The requests that have been made; the number of a request is its position. -/
  issued : List Req
  /-- The requests that are waited for. -/
  pending : List Nat
  /-- What has become of the others; `none` for one that has been given up. -/
  settled : List (Nat × Option Res)
  /-- The requests on their way, and the one that the server works on in front of them. -/
  requests : List Nat
  replies : List (Nat × Res)
  dropped : List Nat
  stopped : Bool

inductive Action (Req : Type) where
  | issue (r : Req)
  | giveUp (i : Nat)
  | answer
  | drop
  | receive
  | stop
  | giveUpAll

namespace Exchange

def empty : Exchange Req Res := ⟨[], [], [], [], [], [], false⟩

def issue (s : Exchange Req Res) (r : Req) : Exchange Req Res :=
  { s with
    issued := s.issued ++ [r]
    pending := s.pending ++ [s.issued.length]
    requests := if s.stopped then s.requests else s.requests ++ [s.issued.length] }

def settle (s : Exchange Req Res) (i : Nat) (res : Option Res) : Exchange Req Res :=
  { s with
    pending := s.pending.erase i
    settled := s.settled ++ [(i, res)] }

def stop (s : Exchange Req Res) : Exchange Req Res :=
  { s with
    requests := []
    stopped := true }

def giveUpAll (s : Exchange Req Res) : Exchange Req Res :=
  { s with
    pending := []
    settled := s.settled ++ s.pending.map fun i => (i, none) }

end Exchange

-- The answer to a request with its number.
variable (answers : Nat → Req → Res)

/-- The effect of an action, `none` where it is not enabled. -/
def step (s : Exchange Req Res) : Action Req → Option (Exchange Req Res)
  | .issue r => some (s.issue r)
  | .giveUp i => if i ∈ s.pending then some (s.settle i none) else none
  | .answer =>
      match s.requests with
      | [] => none
      | i :: rest =>
          (s.issued[i]?).map fun r =>
            { s with
              requests := rest
              replies := s.replies ++ [(i, answers i r)] }
  | .drop =>
      match s.requests with
      | [] => none
      | i :: rest =>
          some
            { s with
              requests := rest
              dropped := s.dropped ++ [i] }
  | .receive =>
      match s.replies with
      | [] => none
      | (i, res) :: rest =>
          let s := { s with replies := rest }
          some (if i ∈ s.pending then s.settle i (some res) else s)
  | .stop => some s.stop
  | .giveUpAll => some s.giveUpAll

/-- The connection from its beginning. -/
def exchange : System (Exchange Req Res) (Action Req) :=
  { init := fun s => s = Exchange.empty
    step := step answers }

/-! ## The invariant -/

/-- What is known of a reply: it answers the request with its number. -/
def Answers (s : Exchange Req Res) (i : Nat) (res : Res) : Prop :=
  ∃ r, s.issued[i]? = some r ∧ res = answers i r

structure Consistent (s : Exchange Req Res) : Prop where
  /-- Every request is waited for or settled. -/
  known : ∀ i, i < s.issued.length ↔ i ∈ s.pending ∨ i ∈ s.settled.map Prod.fst
  /-- It is not both, and is settled once. -/
  once : (s.pending ++ s.settled.map Prod.fst).Nodup
  /-- The replies and the requests behind them are on their way in the order of the numbers. -/
  ordered : (s.replies.map Prod.fst ++ s.requests).Pairwise (· < ·)
  /-- What has been answered was in front of them. -/
  answered : ∀ i res, (i, some res) ∈ s.settled → ∀ j ∈ s.replies.map Prod.fst ++ s.requests, i < j
  requests : ∀ i ∈ s.requests, i < s.issued.length
  replies : ∀ m ∈ s.replies, Answers answers s m.1 m.2
  settled : ∀ i res, (i, some res) ∈ s.settled → Answers answers s i res
  waiting : ∀ i ∈ s.pending,
    i ∈ s.requests ∨ i ∈ s.replies.map Prod.fst ∨ i ∈ s.dropped ∨ s.stopped = true
  /-- A request that has been dropped is never answered. -/
  dropped : ∀ i ∈ s.dropped, i < s.issued.length ∧ (∀ j ∈ s.requests, i < j) ∧
    i ∉ s.replies.map Prod.fst ∧ ∀ res, (i, some res) ∉ s.settled

variable {answers} {s : Exchange Req Res}

theorem Answers.issue {i : Nat} {res : Res} (h : Answers answers s i res) (r : Req) :
    Answers answers (s.issue r) i res := by
  obtain ⟨r', hr', hres⟩ := h
  exact ⟨r', List.getElem?_append_left (List.getElem?_eq_some_iff.mp hr').1 ▸ hr', hres⟩

theorem Answers.lt {i : Nat} {res : Res} (h : Answers answers s i res) : i < s.issued.length := by
  obtain ⟨r, hr, -⟩ := h
  exact (List.getElem?_eq_some_iff.mp hr).1

theorem consistent_empty : Consistent answers (Exchange.empty : Exchange Req Res) :=
  ⟨fun i => iff_of_false (Nat.not_lt_zero i) (by simp [Exchange.empty]), List.nodup_nil, .nil,
    nofun, nofun, nofun, nofun, nofun, nofun⟩

theorem Consistent.pending_lt (h : Consistent answers s) {i : Nat} (hi : i ∈ s.pending) :
    i < s.issued.length := (h.known i).mpr (.inl hi)

theorem Consistent.settled_lt (h : Consistent answers s) {i : Nat}
    (hi : i ∈ s.settled.map Prod.fst) : i < s.issued.length := (h.known i).mpr (.inr hi)

theorem Consistent.issue (h : Consistent answers s) (r : Req) : Consistent answers (s.issue r) := by
  have hfresh : s.issued.length ∉ s.pending ++ s.settled.map Prod.fst := by
    intro hmem
    rcases List.mem_append.mp hmem with hmem | hmem
    · exact absurd (h.pending_lt hmem) (Nat.lt_irrefl _)
    · exact absurd (h.settled_lt hmem) (Nat.lt_irrefl _)
  have hlength : (s.issue r).issued.length = s.issued.length + 1 := List.length_append
  have hrequests : ∀ i ∈ (s.issue r).requests, i ∈ s.requests ∨ i = s.issued.length := by
    intro i hi
    simp only [Exchange.issue] at hi
    split at hi
    · exact .inl hi
    · simpa using hi
  have hline : ∀ i ∈ s.replies.map Prod.fst ++ s.requests, i < s.issued.length := by
    intro i hi
    rcases List.mem_append.mp hi with hi | hi
    · obtain ⟨m, hm, rfl⟩ := List.mem_map.mp hi
      exact (h.replies m hm).lt
    · exact h.requests i hi
  refine ⟨?_, ?_, ?_, ?_, ?_, ?_, ?_, ?_, ?_⟩
  · intro i
    have hknown := h.known i
    rw [hlength]
    simp only [Exchange.issue, List.mem_append, List.mem_singleton]
    rw [or_right_comm, ← hknown]
    omega
  · show ((s.pending ++ [s.issued.length]) ++ s.settled.map Prod.fst).Nodup
    rw [List.append_assoc, List.singleton_append]
    exact List.nodup_middle.mpr (List.nodup_cons.mpr ⟨hfresh, h.once⟩)
  · simp only [Exchange.issue]
    split
    · exact h.ordered
    · rw [← List.append_assoc]
      exact List.pairwise_append.mpr ⟨h.ordered, List.pairwise_singleton _ _,
        fun i hi j hj => List.mem_singleton.mp hj ▸ hline i hi⟩
  · intro i res hi j hj
    rcases List.mem_append.mp hj with hj | hj
    · exact h.answered i res hi j (List.mem_append_left _ hj)
    · rcases hrequests j hj with hj | rfl
      · exact h.answered i res hi j (List.mem_append_right _ hj)
      · exact h.settled_lt (List.mem_map_of_mem hi)
  · intro i hi
    rw [hlength]
    rcases hrequests i hi with hi | rfl
    · exact Nat.lt_succ_of_lt (h.requests i hi)
    · exact Nat.lt_succ_self _
  · exact fun m hm => (h.replies m hm).issue r
  · exact fun i res hi => (h.settled i res hi).issue r
  · intro i hi
    rcases List.mem_append.mp hi with hi | hi
    · rcases h.waiting i hi with hi | hi | hi | hi
      · refine .inl ?_
        simp only [Exchange.issue]
        split
        · exact hi
        · exact List.mem_append_left _ hi
      · exact .inr (.inl hi)
      · exact .inr (.inr (.inl hi))
      · exact .inr (.inr (.inr hi))
    · obtain rfl := List.mem_singleton.mp hi
      by_cases hstopped : s.stopped = true
      · exact .inr (.inr (.inr hstopped))
      · refine .inl ?_
        simp only [Exchange.issue, if_neg hstopped]
        exact List.mem_append_right _ (List.mem_singleton_self _)
  · intro i hi
    obtain ⟨hlt, hbefore, hreplies, hsettled⟩ := h.dropped i hi
    refine ⟨by omega, ?_, hreplies, hsettled⟩
    intro j hj
    rcases hrequests j hj with hj | rfl
    · exact hbefore j hj
    · exact hlt

/-- A request that is waited for is settled, and its reply taken away. -/
theorem Consistent.settle (h : Consistent answers s) {i : Nat} {res : Option Res}
    {rest : List (Nat × Res)} (hrest : rest.Sublist s.replies)
    (htaken : ∀ m ∈ s.replies, m ∈ rest ∨ m.1 = i) (hi : i ∈ s.pending)
    (hres : ∀ r, res = some r → Answers answers s i r ∧ i ∉ s.dropped ∧
      ∀ j ∈ rest.map Prod.fst ++ s.requests, i < j) :
    Consistent answers ({ s with replies := rest }.settle i res) := by
  have hids : ({ s with replies := rest }.settle i res).settled.map Prod.fst =
      s.settled.map Prod.fst ++ [i] := List.map_append
  have hnodup : (i :: s.pending.erase i ++ s.settled.map Prod.fst).Nodup :=
    (((List.perm_cons_erase hi).append_right _).nodup_iff).mp h.once
  have hline : (rest.map Prod.fst ++ s.requests).Sublist (s.replies.map Prod.fst ++ s.requests) :=
    (hrest.map Prod.fst).append_right _
  refine ⟨?_, ?_, h.ordered.sublist hline, ?_, h.requests,
    fun m hm => h.replies m (hrest.subset hm), ?_, ?_, ?_⟩
  · intro j
    rw [hids, List.mem_append, List.mem_singleton]
    have hknown := h.known j
    show j < s.issued.length ↔ j ∈ s.pending.erase i ∨ _
    rw [hknown]
    by_cases hj : j = i
    · subst hj
      exact iff_of_true (.inl hi) (.inr (.inr rfl))
    · rw [List.mem_erase_of_ne hj, or_iff_left hj]
  · rw [hids, ← List.append_assoc]
    exact List.nodup_append_comm.mp (by rwa [List.singleton_append])
  · intro j r hj
    rcases List.mem_append.mp hj with hj | hj
    · exact fun k hk => h.answered j r hj k (hline.subset hk)
    · obtain ⟨rfl, hr⟩ := Prod.mk.inj (List.mem_singleton.mp hj)
      exact (hres r hr.symm).2.2
  · intro j r hj
    rcases List.mem_append.mp hj with hj | hj
    · exact h.settled j r hj
    · obtain ⟨rfl, hr⟩ := Prod.mk.inj (List.mem_singleton.mp hj)
      exact (hres r hr.symm).1
  · intro j hj
    rcases h.waiting j (List.mem_of_mem_erase hj) with hj' | hj' | hj'
    · exact .inl hj'
    · obtain ⟨m, hm, rfl⟩ := List.mem_map.mp hj'
      rcases htaken m hm with hm | rfl
      · exact .inr (.inl (List.mem_map_of_mem hm))
      · rw [List.cons_append] at hnodup
        exact absurd (List.mem_append_left _ hj) (List.nodup_cons.mp hnodup).1
    · exact .inr (.inr hj')
  · intro j hj
    obtain ⟨hlt, hbefore, hreplies, hsettled⟩ := h.dropped j hj
    refine ⟨hlt, hbefore, fun hmem => hreplies ((hrest.map Prod.fst).subset hmem), ?_⟩
    intro r hmem
    rcases List.mem_append.mp hmem with hmem | hmem
    · exact hsettled r hmem
    · obtain ⟨rfl, hr⟩ := Prod.mk.inj (List.mem_singleton.mp hmem)
      exact (hres r hr.symm).2.1 hj

theorem Consistent.giveUp (h : Consistent answers s) {i : Nat} (hi : i ∈ s.pending) :
    Consistent answers (s.settle i none) :=
  h.settle (List.Sublist.refl _) (fun _ hm => .inl hm) hi nofun

theorem Consistent.answer (h : Consistent answers s) {i : Nat} {rest : List Nat} {r : Req}
    (hrequests : s.requests = i :: rest) (hr : s.issued[i]? = some r) :
    Consistent answers
      { s with
        requests := rest
        replies := s.replies ++ [(i, answers i r)] } := by
  have hline : (s.replies ++ [(i, answers i r)]).map Prod.fst ++ rest =
      s.replies.map Prod.fst ++ s.requests := by
    rw [hrequests, List.map_append, List.append_assoc]
    rfl
  refine ⟨h.known, h.once, hline ▸ h.ordered, hline ▸ h.answered, ?_, ?_, h.settled, ?_, ?_⟩
  · exact fun j hj => h.requests j (hrequests ▸ List.mem_cons_of_mem i hj)
  · intro m hm
    rcases List.mem_append.mp hm with hm | hm
    · exact h.replies m hm
    · rw [List.mem_singleton.mp hm]
      exact ⟨r, hr, rfl⟩
  · intro j hj
    rw [List.map_append]
    rcases h.waiting j hj with hj | hj | hj
    · rw [hrequests] at hj
      rcases List.mem_cons.mp hj with rfl | hj
      · exact .inr (.inl (List.mem_append_right _ (List.mem_singleton_self _)))
      · exact .inl hj
    · exact .inr (.inl (List.mem_append_left _ hj))
    · exact .inr (.inr hj)
  · intro j hj
    obtain ⟨hlt, hbefore, hreplies, hsettled⟩ := h.dropped j hj
    rw [hrequests] at hbefore
    refine ⟨hlt, fun k hk => hbefore k (List.mem_cons_of_mem i hk), ?_, hsettled⟩
    rw [List.map_append, List.mem_append, not_or]
    refine ⟨hreplies, ?_⟩
    intro hmem
    obtain rfl : j = i := List.mem_singleton.mp hmem
    exact absurd (hbefore j List.mem_cons_self) (Nat.lt_irrefl j)

theorem Consistent.drop (h : Consistent answers s) {i : Nat} {rest : List Nat}
    (hrequests : s.requests = i :: rest) :
    Consistent answers
      { s with
        requests := rest
        dropped := s.dropped ++ [i] } := by
  have hsublist : (s.replies.map Prod.fst ++ rest).Sublist
      (s.replies.map Prod.fst ++ s.requests) := by
    rw [hrequests]
    exact (List.sublist_cons_self i rest).append_left _
  have hhead := h.ordered
  rw [hrequests] at hhead
  obtain ⟨-, hrest, hbefore⟩ := List.pairwise_append.mp hhead
  have hmem : i ∈ s.replies.map Prod.fst ++ s.requests :=
    List.mem_append_right _ (hrequests ▸ List.mem_cons_self)
  refine ⟨h.known, h.once, h.ordered.sublist hsublist,
    fun j res hj k hk => h.answered j res hj k (hsublist.subset hk), ?_, h.replies, h.settled,
    ?_, ?_⟩
  · exact fun j hj => h.requests j (hrequests ▸ List.mem_cons_of_mem i hj)
  · intro j hj
    rcases h.waiting j hj with hj | hj | hj | hj
    · rw [hrequests] at hj
      rcases List.mem_cons.mp hj with rfl | hj
      · exact .inr (.inr (.inl (List.mem_append_right _ (List.mem_singleton_self _))))
      · exact .inl hj
    · exact .inr (.inl hj)
    · exact .inr (.inr (.inl (List.mem_append_left _ hj)))
    · exact .inr (.inr (.inr hj))
  · intro j hj
    rcases List.mem_append.mp hj with hj | hj
    · obtain ⟨hlt, hdropped, hreplies, hsettled⟩ := h.dropped j hj
      rw [hrequests] at hdropped
      exact ⟨hlt, fun k hk => hdropped k (List.mem_cons_of_mem i hk), hreplies, hsettled⟩
    · rw [List.mem_singleton.mp hj]
      refine ⟨h.requests i (hrequests ▸ List.mem_cons_self), (List.pairwise_cons.mp hrest).1,
        ?_, ?_⟩
      · exact fun hreply => absurd (hbefore i hreply i List.mem_cons_self) (Nat.lt_irrefl i)
      · exact fun res hres => absurd (h.answered i res hres i hmem) (Nat.lt_irrefl i)

/-- A reply that nobody waits for any more. -/
theorem Consistent.discard (h : Consistent answers s) {m : Nat × Res} {rest : List (Nat × Res)}
    (hreplies : s.replies = m :: rest) (hpending : m.1 ∉ s.pending) :
    Consistent answers { s with replies := rest } := by
  have hsublist : (rest.map Prod.fst ++ s.requests).Sublist
      (s.replies.map Prod.fst ++ s.requests) := by
    rw [hreplies]
    exact (List.sublist_cons_self _ _).append_right _
  refine ⟨h.known, h.once, h.ordered.sublist hsublist,
    fun j res hj k hk => h.answered j res hj k (hsublist.subset hk), h.requests, ?_, h.settled,
    ?_, ?_⟩
  · exact fun n hn => h.replies n (hreplies ▸ List.mem_cons_of_mem m hn)
  · intro j hj
    rcases h.waiting j hj with hj' | hj' | hj'
    · exact .inl hj'
    · rw [hreplies] at hj'
      rcases List.mem_cons.mp hj' with rfl | hj'
      · exact absurd hj hpending
      · exact .inr (.inl hj')
    · exact .inr (.inr hj')
  · intro j hj
    obtain ⟨hlt, hbefore, hnone, hsettled⟩ := h.dropped j hj
    rw [hreplies] at hnone
    exact ⟨hlt, hbefore, fun hmem => hnone (List.mem_cons_of_mem _ hmem), hsettled⟩

/-- A reply that is waited for. -/
theorem Consistent.receive (h : Consistent answers s) {i : Nat} {res : Res}
    {rest : List (Nat × Res)} (hreplies : s.replies = (i, res) :: rest) (hpending : i ∈ s.pending) :
    Consistent answers ({ s with replies := rest }.settle i (some res)) := by
  have hordered := h.ordered
  rw [hreplies, List.map_cons, List.cons_append] at hordered
  obtain ⟨hbehind, hrest⟩ := List.pairwise_cons.mp hordered
  have hfresh : i ∉ s.dropped := by
    intro hdropped
    obtain ⟨-, -, hnone, -⟩ := h.dropped i hdropped
    exact hnone (hreplies ▸ List.mem_cons_self)
  refine h.settle ?_ ?_ hpending ?_
  · rw [hreplies]
    exact List.sublist_cons_self _ _
  · intro m hm
    rw [hreplies] at hm
    exact (List.mem_cons.mp hm).symm.imp_right fun heq => congrArg Prod.fst heq
  · intro r hr
    obtain rfl := Option.some.inj hr
    exact ⟨h.replies (i, res) (hreplies ▸ List.mem_cons_self), hfresh, hbehind⟩

theorem Consistent.stop (h : Consistent answers s) : Consistent answers s.stop := by
  have hsublist : (s.replies.map Prod.fst ++ []).Sublist (s.replies.map Prod.fst ++ s.requests) :=
    (List.nil_sublist _).append_left _
  refine ⟨h.known, h.once, h.ordered.sublist hsublist,
    fun j res hj k hk => h.answered j res hj k (hsublist.subset hk), nofun, h.replies, h.settled,
    fun _ _ => .inr (.inr (.inr rfl)), ?_⟩
  intro j hj
  obtain ⟨hlt, -, hreplies, hsettled⟩ := h.dropped j hj
  exact ⟨hlt, nofun, hreplies, hsettled⟩

theorem Consistent.giveUpAll (h : Consistent answers s) : Consistent answers s.giveUpAll := by
  have hids : s.giveUpAll.settled.map Prod.fst = s.settled.map Prod.fst ++ s.pending := by
    simp [Exchange.giveUpAll, Function.comp_def]
  have hsettled : ∀ j r, (j, some r) ∈ s.giveUpAll.settled → (j, some r) ∈ s.settled := by
    intro j r hj
    rcases List.mem_append.mp hj with hj | hj
    · exact hj
    · obtain ⟨k, -, hk⟩ := List.mem_map.mp hj
      cases hk
  refine ⟨?_, ?_, h.ordered, fun j r hj => h.answered j r (hsettled j r hj), h.requests, h.replies,
    fun j r hj => h.settled j r (hsettled j r hj), nofun, ?_⟩
  · intro j
    rw [hids, List.mem_append, or_comm (a := j ∈ s.settled.map Prod.fst)]
    show j < s.issued.length ↔ j ∈ [] ∨ _
    rw [h.known j, or_iff_right List.not_mem_nil]
  · rw [hids]
    show ([] ++ (s.settled.map Prod.fst ++ s.pending)).Nodup
    rw [List.nil_append]
    exact List.nodup_append_comm.mp h.once
  · intro j hj
    obtain ⟨hlt, hbefore, hreplies, hnone⟩ := h.dropped j hj
    exact ⟨hlt, hbefore, hreplies, fun r hr => hnone r (hsettled j r hr)⟩

/-- One step. -/
theorem Consistent.step (h : Consistent answers s) {a : Action Req} {t : Exchange Req Res}
    (hstep : step answers s a = some t) : Consistent answers t := by
  cases a with
  | issue r =>
      cases hstep
      exact h.issue r
  | giveUp i =>
      rw [Correlation.step] at hstep
      split at hstep
      next hi =>
        cases hstep
        exact h.giveUp hi
      next => cases hstep
  | answer =>
      rw [Correlation.step] at hstep
      split at hstep
      next => cases hstep
      next i rest hrequests =>
        obtain ⟨r, hr, rfl⟩ := Option.map_eq_some_iff.mp hstep
        exact h.answer hrequests hr
  | drop =>
      rw [Correlation.step] at hstep
      split at hstep
      next => cases hstep
      next i rest hrequests =>
        cases hstep
        exact h.drop hrequests
  | receive =>
      rw [Correlation.step] at hstep
      split at hstep
      next => cases hstep
      next i res rest hreplies =>
        cases hstep
        dsimp only
        split
        next hi => exact h.receive hreplies hi
        next hi => exact h.discard hreplies hi
  | stop =>
      cases hstep
      exact h.stop
  | giveUpAll =>
      cases hstep
      exact h.giveUpAll

theorem path_step {a : Action Req} {t : Exchange Req Res} (h : step answers s a = some t) :
    (exchange answers).Path System.anyStep s t := .snoc (a := a) .refl trivial h

/-- **The invariant of every run.** -/
theorem consistent_of_reachable (h : (exchange answers).Reachable System.anyStep s) :
    Consistent answers s := by
  refine h.invariant _ ?_ ?_
  · rintro s rfl
    exact consistent_empty
  · exact fun s a t hs _ hstep => hs.step hstep

end Correlation
end HermesPlatform
