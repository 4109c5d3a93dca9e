/-
  HermesPlatform.Knowledge.ObjectStore

  `upload_document` and `delete_source` of the knowledge service, against its two stores: the
  objects of the bucket, and the rows of `knowledge_sources` and `knowledge_documents`.

  The stores have no common transaction.  An upload stores the object and then inserts the
  row; a deletion removes the objects one by one and then deletes the source, from which the
  rows go with `ON DELETE CASCADE`.  A call of either store is one step.  It returns, or it
  raises, or the request is cancelled in it; in the last two cases its effect may have
  happened or not (an answer that is lost, a thread that runs on after the cancellation).
-/

import HermesPlatform.Lib.Parties
import HermesPlatform.Lib.Transition

namespace HermesPlatform
namespace Knowledge

open Parties Transition

/-! ## The stores and the operations -/

/-- The parts of `source_id/document_id/filename`, of which the first two have no slash. -/
structure ObjectKey where
  sourceId : String
  documentId : Nat
  filename : String
deriving DecidableEq, Repr

/-- A row of `knowledge_sources`. -/
structure Source where
  id : String
  status : String
deriving DecidableEq, Repr

/-- A row of `knowledge_documents`. -/
structure Document where
  id : Nat
  sourceId : String
  filename : String
  sha256 : String
  objectKey : ObjectKey
deriving DecidableEq, Repr

inductive Request where
  | uploadDocument (sourceId filename sha256 : String)
  | deleteSource (sourceId : String)
deriving DecidableEq, Repr

def Request.sourceId : Request → String
  | .uploadDocument sourceId _ _ => sourceId
  | .deleteSource sourceId => sourceId

/-- The status of the response, where no other exception leaves the handler. -/
inductive Answer where
  | status (code : Nat)
  | raised
  | cancelled
deriving DecidableEq, Repr

/-- The call that an operation is in. -/
inductive Phase where
  /-- `upload_document`: the `SELECT` of the source. -/
  | checkSource
  /-- The reading and the parsing of the file. -/
  | parse
  /-- `put_object` -/
  | put (key : ObjectKey)
  /-- The transaction with the `INSERT`s. -/
  | insert (key : ObjectKey)
  /-- `_remove_object` in the `except` clauses, and what is answered after it. -/
  | cleanup (key : ObjectKey) (answer : Answer)
  /-- `delete_source`: the `SELECT` of the object keys. -/
  | fetch
  /-- The `SELECT EXISTS` of the source. -/
  | checkExists (keys : List ObjectKey)
  /-- The loop over the records; without any left, the `DELETE` of the source. -/
  | removing (removed remaining : List ObjectKey)
  | ended (answer : Answer)
deriving DecidableEq, Repr

structure Operation where
  request : Request
  phase : Phase
deriving DecidableEq, Repr

structure Store where
  objects : List ObjectKey
  sources : List Source
  documents : List Document
  /-- The ids that `uuid4` has given, which never gives one again. -/
  issued : List Nat
  operations : List Operation
deriving DecidableEq, Repr

/-- What comes of the call that an operation is in. -/
inductive Event where
  | returned
  /-- The parsing has chunks, and the document its id. -/
  | parsed (documentId : Nat)
  /-- An exception, whether it is `UniqueViolationError` or `S3Error` where that is answered,
      and whether the effect of the call has happened. -/
  | raised (expected done : Bool)
  | cancelled (done : Bool)
deriving DecidableEq, Repr

inductive Action where
  | start (request : Request)
  | event (i : Nat) (e : Event)
deriving DecidableEq, Repr

namespace Store

variable (s : Store)

def putObject (key : ObjectKey) : Store := { s with objects := key :: s.objects }

/-- `remove_object`, which succeeds for a key that is not there. -/
def removeObject (key : ObjectKey) : Store := { s with objects := s.objects.filter (· ≠ key) }

/-- The effect of a call that has raised or been cancelled. -/
def effect (done : Bool) (f : Store → Store) : Store := if done then f s else s

/-- The foreign key and `uq_knowledge_documents_source_sha256`. -/
def accepts (document : Document) : Bool :=
  s.sources.any (·.id = document.sourceId) &&
    s.documents.all fun other =>
      !(other.sourceId = document.sourceId && other.sha256 = document.sha256)

def insertDocument (document : Document) : Store :=
  { s with documents := s.documents ++ [document] }

/-- `DELETE FROM knowledge_sources`, with the documents of the source. -/
def deleteSource (sourceId : String) : Store :=
  { s with
    sources := s.sources.filter (·.id ≠ sourceId)
    documents := s.documents.filter (·.sourceId ≠ sourceId) }

/-- `SELECT object_key FROM knowledge_documents WHERE source_id = $1` -/
def objectKeys (sourceId : String) : List ObjectKey :=
  (s.documents.filter (·.sourceId = sourceId)).map (·.objectKey)

def setPhase (i : Nat) (op : Operation) (phase : Phase) : Store :=
  { s with operations := s.operations.set i { op with phase := phase } }

end Store

/-- What is answered where an exception is not expected. -/
def answer (expected : Bool) (code : Nat) : Answer := if expected then .status code else .raised

/-- The row of an upload. -/
def document (sourceId filename sha256 : String) (key : ObjectKey) : Document :=
  ⟨key.documentId, sourceId, filename, sha256, key⟩

/-- A step of `upload_document`. -/
def uploadStep (s : Store) (i : Nat) (op : Operation) (sourceId filename sha256 : String)
    (e : Event) : Option Store :=
  match op.phase, e with
  | .checkSource, .returned =>
      match s.sources.find? (·.id = sourceId) with
      | none => some (s.setPhase i op (.ended (.status 404)))
      | some source =>
          if source.status ≠ "active" then some (s.setPhase i op (.ended (.status 409)))
          else some (s.setPhase i op .parse)
  | .checkSource, .raised _ _ => some (s.setPhase i op (.ended .raised))
  | .checkSource, .cancelled _ => some (s.setPhase i op (.ended .cancelled))
  | .parse, .parsed documentId =>
      if documentId ∈ s.issued then none
      else
        some ({ s with issued := documentId :: s.issued }.setPhase i op
          (.put ⟨sourceId, documentId, filename⟩))
  | .parse, .raised expected _ => some (s.setPhase i op (.ended (answer expected 422)))
  | .parse, .cancelled _ => some (s.setPhase i op (.ended .cancelled))
  | .put key, .returned => some ((s.putObject key).setPhase i op (.insert key))
  | .put key, .raised expected done =>
      some ((s.effect done (·.putObject key)).setPhase i op (.ended (answer expected 502)))
  | .put key, .cancelled done =>
      some ((s.effect done (·.putObject key)).setPhase i op (.ended .cancelled))
  | .insert key, .returned =>
      if s.accepts (document sourceId filename sha256 key) then
        some ((s.insertDocument (document sourceId filename sha256 key)).setPhase i op
          (.ended (.status 201)))
      else none
  | .insert key, .raised expected done =>
      if done ∧ !s.accepts (document sourceId filename sha256 key) then none
      else
        some ((s.effect done
          (·.insertDocument (document sourceId filename sha256 key))).setPhase i op
            (.cleanup key (answer expected 409)))
  | .insert key, .cancelled done =>
      if done ∧ !s.accepts (document sourceId filename sha256 key) then none
      else
        -- `except Exception` does not catch the `CancelledError`.
        some ((s.effect done
          (·.insertDocument (document sourceId filename sha256 key))).setPhase i op
            (.ended .cancelled))
  | .cleanup key answer, .returned => some ((s.removeObject key).setPhase i op (.ended answer))
  | .cleanup key answer, .raised expected done =>
      -- An `S3Error` is logged.
      some ((s.effect done (·.removeObject key)).setPhase i op
        (.ended (if expected then answer else .raised)))
  | .cleanup key _, .cancelled done =>
      some ((s.effect done (·.removeObject key)).setPhase i op (.ended .cancelled))
  | _, _ => none

/-- A step of `delete_source`. -/
def deleteStep (s : Store) (i : Nat) (op : Operation) (sourceId : String) (e : Event) :
    Option Store :=
  match op.phase, e with
  | .fetch, .returned => some (s.setPhase i op (.checkExists (s.objectKeys sourceId)))
  | .fetch, .raised _ _ => some (s.setPhase i op (.ended .raised))
  | .fetch, .cancelled _ => some (s.setPhase i op (.ended .cancelled))
  | .checkExists keys, .returned =>
      if s.sources.any (·.id = sourceId) then some (s.setPhase i op (.removing [] keys))
      else some (s.setPhase i op (.ended (.status 404)))
  | .checkExists _, .raised _ _ => some (s.setPhase i op (.ended .raised))
  | .checkExists _, .cancelled _ => some (s.setPhase i op (.ended .cancelled))
  | .removing removed (key :: rest), .returned =>
      some ((s.removeObject key).setPhase i op (.removing (key :: removed) rest))
  | .removing _ (key :: _), .raised expected done =>
      some ((s.effect done (·.removeObject key)).setPhase i op (.ended (answer expected 502)))
  | .removing _ (key :: _), .cancelled done =>
      some ((s.effect done (·.removeObject key)).setPhase i op (.ended .cancelled))
  | .removing _ [], .returned =>
      some ((s.deleteSource sourceId).setPhase i op (.ended (.status 200)))
  | .removing _ [], .raised _ done =>
      some ((s.effect done (·.deleteSource sourceId)).setPhase i op (.ended .raised))
  | .removing _ [], .cancelled done =>
      some ((s.effect done (·.deleteSource sourceId)).setPhase i op (.ended .cancelled))
  | _, _ => none

def step (s : Store) : Action → Option Store
  | .start request =>
      let phase :=
        match request with
        | .uploadDocument _ _ _ => .checkSource
        | .deleteSource _ => .fetch
      some { s with operations := s.operations ++ [⟨request, phase⟩] }
  | .event i e =>
      s.operations[i]?.bind fun op =>
        match op.request with
        | .uploadDocument sourceId filename sha256 => uploadStep s i op sourceId filename sha256 e
        | .deleteSource sourceId => deleteStep s i op sourceId e

/-- Every object has a row, and every row its object. -/
structure InStep (s : Store) : Prop where
  object : ∀ key ∈ s.objects, ∃ doc ∈ s.documents, doc.objectKey = key
  row : ∀ doc ∈ s.documents, doc.objectKey ∈ s.objects

def Phase.hasEnded : Phase → Bool
  | .ended _ => true
  | _ => false

/-- The stores are in step, and the ids and the keys of the rows are as they are written. -/
def system : System Store Action where
  init s := InStep s ∧ s.operations = [] ∧
    ∀ doc ∈ s.documents, doc.objectKey.sourceId = doc.sourceId ∧
      doc.objectKey.documentId ∈ s.issued
  step := step

/-- What an event does to the store of the call: its effect happens. -/
def Event.done : Event → Bool
  | .returned => true
  | .parsed _ => false
  | .raised _ done => done
  | .cancelled done => done

/-- The code sees the call return. -/
def Event.returns : Event → Bool
  | .returned => true
  | _ => false

/-- `delete_source` is between its `SELECT` and its `DELETE`. -/
def Phase.deleting : Phase → Bool
  | .checkExists _ => true
  | .removing _ _ => true
  | _ => false

/-- A row of the source is there. -/
def Store.hasRows (s : Store) (sourceId : String) : Bool :=
  s.documents.any (·.sourceId = sourceId)

/-- No deletion of the source is between its `SELECT` and its `DELETE`. -/
def Store.undisturbed (s : Store) (sourceId : String) : Bool :=
  s.operations.all fun other => !(other.request.sourceId = sourceId && other.phase.deleting)

/-- A call that fails leaves nothing behind that the code does not undo, and no row comes into a
    source while it is being deleted. -/
def UndoneBy (s : Store) (e : Event) (op : Operation) : Bool :=
  match op.phase with
  | .put _ => e.done = e.returns
  | .insert _ =>
      match e with
      | .raised _ done => !done
      | .cancelled done => done && s.undisturbed op.request.sourceId
      | _ => s.undisturbed op.request.sourceId
  | .cleanup _ _ => e.done
  -- The first round of the loop, which can fail as long as the object stays.
  | .removing [] (_ :: _) => e.returns || !e.done || !s.hasRows op.request.sourceId
  | .removing (_ :: _) (_ :: _) => e.returns || !s.hasRows op.request.sourceId
  | .removing _ [] => e.done || !s.hasRows op.request.sourceId
  | _ => true

def Undone (s : Store) : Action → Prop
  | .event i e => ∀ op ∈ s.operations[i]?, UndoneBy s e op = true
  | .start _ => True

instance (s : Store) : ∀ a, Decidable (Undone s a)
  | .event i e => inferInstanceAs (Decidable (∀ op ∈ s.operations[i]?, UndoneBy s e op = true))
  | .start _ => isTrue trivial

/-! ## The invariant -/

namespace Phase

/-- The key of the document that is being uploaded. -/
def owned : Phase → Option ObjectKey
  | .put key => some key
  | .insert key => some key
  | .cleanup key _ => some key
  | _ => none

/-- The object of an upload that has no row. -/
def stored : Phase → Option ObjectKey
  | .insert key => some key
  | .cleanup key _ => some key
  | _ => none

/-- The objects that a deletion has removed. -/
def removed : Phase → List ObjectKey
  | .removing removed _ => removed
  | _ => []

/-- The keys that a deletion has read. -/
def keys : Phase → List ObjectKey
  | .checkExists keys => keys
  | .removing removed remaining => removed ++ remaining
  | _ => []

theorem owned_of_stored {phase : Phase} {key : ObjectKey} (h : phase.stored = some key) :
    phase.owned = some key := by
  cases phase <;> first
    | exact h
    | cases h

theorem mem_keys_of_removed {phase : Phase} {key : ObjectKey} (h : key ∈ phase.removed) :
    key ∈ phase.keys := by
  cases phase with
  | removing removed remaining => exact List.mem_append_left _ h
  | _ => cases h

end Phase

theorem Store.not_deleting {s : Store} {sourceId : String} (h : s.undisturbed sourceId = true)
    {op : Operation} (hop : op ∈ s.operations) (hsource : op.request.sourceId = sourceId) :
    op.phase.deleting = false := by
  have hnot := List.all_eq_true.mp h op hop
  simpa [hsource] using hnot

theorem Store.ne_of_hasRows {s : Store} {sourceId : String} (h : s.hasRows sourceId = false)
    {doc : Document} (hdoc : doc ∈ s.documents) : doc.sourceId ≠ sourceId := by
  have hnot := List.any_eq_false.mp h doc hdoc
  simpa using hnot

/-- Where keys can be. -/
structure KeysInv (s : Store) : Prop where
  source : ∀ doc ∈ s.documents, doc.objectKey.sourceId = doc.sourceId
  keySource : ∀ op ∈ s.operations, ∀ key ∈ op.phase.keys, key.sourceId = op.request.sourceId
  ownSource : ∀ op ∈ s.operations, ∀ key, op.phase.owned = some key →
    key.sourceId = op.request.sourceId
  issuedRow : ∀ doc ∈ s.documents, doc.objectKey.documentId ∈ s.issued
  issuedKey : ∀ op ∈ s.operations, ∀ key, key ∈ op.phase.keys ∨ op.phase.owned = some key →
    key.documentId ∈ s.issued
  /-- The key of an upload in progress is nowhere else. -/
  unownedRow : ∀ op ∈ s.operations, ∀ key, op.phase.owned = some key →
    ∀ doc ∈ s.documents, doc.objectKey ≠ key
  unownedKey : ∀ op ∈ s.operations, ∀ key, op.phase.owned = some key →
    ∀ other ∈ s.operations, key ∉ other.phase.keys
  /-- A deletion in progress has read every row of its source. -/
  reads : ∀ op ∈ s.operations, op.phase.deleting = true → ∀ doc ∈ s.documents,
    doc.sourceId = op.request.sourceId → doc.objectKey ∈ op.phase.keys
  exclusive : Exclusive (fun op key => op.phase.owned = some key) s.operations

structure StoreInv (s : Store) : Prop extends KeysInv s where
  /-- An object that a row lacks has been removed by a deletion in progress. -/
  row : ∀ doc ∈ s.documents, doc.objectKey ∈ s.objects ∨
    ∃ op ∈ s.operations, doc.objectKey ∈ op.phase.removed
  /-- A row that an object lacks is inserted, or the object removed, by an upload. -/
  object : ∀ key ∈ s.objects, (∃ doc ∈ s.documents, doc.objectKey = key) ∨
    ∃ op ∈ s.operations, op.phase.stored = some key
  stored : ∀ op ∈ s.operations, ∀ key, op.phase.stored = some key → key ∈ s.objects
  removed : ∀ op ∈ s.operations, ∀ key ∈ op.phase.removed, key ∉ s.objects

section Steps

variable {s s' : Store} {i : Nat} {op : Operation} {phase : Phase} {key : ObjectKey}

/-- One operation goes on.  It has no new key of its own, reads the keys of rows of its source,
    and gives up its key where it adds a row. -/
theorem KeysInv.set (h : KeysInv s) (hget : s.operations[i]? = some op)
    (hoperations : s'.operations = s.operations.set i { op with phase := phase })
    (hissued : s'.issued = s.issued)
    (howned : ∀ key, phase.owned = some key → op.phase.owned = some key)
    (hkeys : ∀ key ∈ phase.keys, key ∈ op.phase.keys ∨
      ∃ doc ∈ s.documents, doc.objectKey = key ∧ doc.sourceId = op.request.sourceId)
    (hreads : phase.deleting = true → ∀ doc ∈ s'.documents,
      doc.sourceId = op.request.sourceId → doc.objectKey ∈ phase.keys)
    (hdocuments : ∀ doc ∈ s'.documents, doc ∈ s.documents ∨
      op.phase.owned = some doc.objectKey ∧ doc.sourceId = op.request.sourceId ∧
        phase.owned = none ∧ phase.keys = [] ∧ s.undisturbed doc.sourceId = true) :
    KeysInv s' := by
  have hop : op ∈ s.operations := List.mem_of_getElem? hget
  have hrowOwned : ∀ o ∈ s.operations, ∀ key, o.phase.owned = some key →
      ∀ doc ∈ s.documents, doc.objectKey = key → False := fun o ho key hkey doc hdoc heq =>
    h.unownedRow o ho key hkey doc hdoc heq
  -- A key that the operation reads now is that of a row, so no upload holds it.
  have hnewKey : ∀ o ∈ s.operations, ∀ key, o.phase.owned = some key → key ∉ phase.keys := by
    intro o ho key hkey hmem
    obtain hold | ⟨doc, hdoc, heq, -⟩ := hkeys key hmem
    · exact h.unownedKey o ho key hkey op hop hold
    · exact hrowOwned o ho key hkey doc hdoc heq
  -- A row of `s'` is a row of `s`, or has the key that this operation gives up.
  constructor
  case source =>
    intro doc hdoc
    obtain hold | ⟨hkey, hsource, -⟩ := hdocuments doc hdoc
    · exact h.source doc hold
    · rw [h.ownSource op hop _ hkey, hsource]
  case keySource =>
    rw [hoperations]
    refine forall_mem_set h.keySource fun key hmem => ?_
    obtain hold | ⟨doc, hdoc, rfl, hsource⟩ := hkeys key hmem
    · exact h.keySource op hop key hold
    · rw [h.source doc hdoc]
      exact hsource
  case ownSource =>
    rw [hoperations]
    exact forall_mem_set h.ownSource fun key hkey => h.ownSource op hop key (howned key hkey)
  case issuedRow =>
    intro doc hdoc
    rw [hissued]
    obtain hold | ⟨hkey, -⟩ := hdocuments doc hdoc
    · exact h.issuedRow doc hold
    · exact h.issuedKey op hop _ (.inr hkey)
  case issuedKey =>
    rw [hoperations, hissued]
    refine forall_mem_set h.issuedKey ?_
    rintro key (hmem | hkey)
    · obtain hold | ⟨doc, hdoc, rfl, -⟩ := hkeys key hmem
      · exact h.issuedKey op hop key (.inl hold)
      · exact h.issuedRow doc hdoc
    · exact h.issuedKey op hop key (.inr (howned key hkey))
  case unownedRow =>
    intro o ho key hkey doc hdoc heq
    rw [hoperations] at ho
    obtain ⟨j, hj⟩ := List.mem_iff_getElem?.mp ho
    obtain ⟨rfl, rfl⟩ | ⟨hne, hj⟩ := getElem?_set_cases hj
    · obtain hold | ⟨-, -, hnone, -, -⟩ := hdocuments doc hdoc
      · exact h.unownedRow op hop key (howned key hkey) doc hold heq
      · rw [show phase.owned = some key from hkey] at hnone
        cases hnone
    · obtain hold | ⟨hown, -⟩ := hdocuments doc hdoc
      · exact h.unownedRow o (List.mem_of_getElem? hj) key hkey doc hold heq
      · rw [heq] at hown
        exact hne (h.exclusive i j op o key hget hj hown hkey)
  case unownedKey =>
    rw [hoperations]
    refine forall_mem_set ?_ ?_
    · intro o ho key hkey
      exact forall_mem_set (h.unownedKey o ho key hkey) (hnewKey o ho key hkey)
    · intro key hkey
      have hold : op.phase.owned = some key := howned key hkey
      exact forall_mem_set (h.unownedKey op hop key hold) (hnewKey op hop key hold)
  case reads =>
    rw [hoperations]
    refine forall_mem_set ?_ hreads
    intro o ho hdeleting doc hdoc hsource
    obtain hold | ⟨-, -, -, -, hundisturbed⟩ := hdocuments doc hdoc
    · exact h.reads o ho hdeleting doc hold hsource
    · -- The row that comes in is of a source that no operation is deleting.
      rw [Store.not_deleting hundisturbed ho hsource.symm] at hdeleting
      cases hdeleting
  case exclusive =>
    rw [hoperations]
    exact h.exclusive.set hget fun key hkey => .inl (howned key hkey)

namespace StoreInv

/-- Only the phase changes. -/
theorem setPhase (h : StoreInv s) (hget : s.operations[i]? = some op)
    (hstored : phase.stored = op.phase.stored) (hremoved : phase.removed = op.phase.removed)
    (howned : ∀ key, phase.owned = some key → op.phase.owned = some key)
    (hkeys : ∀ key ∈ phase.keys, key ∈ op.phase.keys ∨
      ∃ doc ∈ s.documents, doc.objectKey = key ∧ doc.sourceId = op.request.sourceId)
    (hreads : phase.deleting = true → ∀ doc ∈ s.documents,
      doc.sourceId = op.request.sourceId → doc.objectKey ∈ phase.keys) :
    StoreInv (s.setPhase i op phase) := by
  have hop : op ∈ s.operations := List.mem_of_getElem? hget
  have hinv : KeysInv (s.setPhase i op phase) :=
    h.toKeysInv.set hget rfl rfl howned hkeys hreads fun _ hdoc => .inl hdoc
  exact
    { hinv with
      row := fun doc hdoc => (h.row doc hdoc).imp_right fun hex =>
        exists_mem_set hget hex fun hmem => by rwa [hremoved]
      object := fun key hkey => (h.object key hkey).imp_right fun hex =>
        exists_mem_set hget hex fun hmem => by rwa [hstored]
      stored := forall_mem_set h.stored fun key hkey => h.stored op hop key (by rwa [← hstored])
      removed := forall_mem_set h.removed fun key hmem =>
        h.removed op hop key (by rwa [← hremoved]) }

theorem start (h : StoreInv s) {request : Request} (hstored : phase.stored = none)
    (howned : phase.owned = none) (hkeys : phase.keys = []) (hreads : phase.deleting = false) :
    StoreInv { s with operations := s.operations ++ [⟨request, phase⟩] } := by
  have hkey : ∀ key, phase.owned ≠ some key := by
    intro key hkey
    rw [howned] at hkey
    cases hkey
  have hremoved : phase.removed = [] :=
    List.eq_nil_iff_forall_not_mem.mpr fun key hmem => by
      have hmem' := Phase.mem_keys_of_removed hmem
      rw [hkeys] at hmem'
      cases hmem'
  have hex : ∀ {P : Operation → Prop}, (∃ o ∈ s.operations, P o) →
      ∃ o ∈ s.operations ++ [⟨request, phase⟩], P o := by
    rintro P ⟨o, ho, hP⟩
    exact ⟨o, List.mem_append_left _ ho, hP⟩
  have hforall : ∀ {P : Operation → Prop}, (∀ o ∈ s.operations, P o) → P ⟨request, phase⟩ →
      ∀ o ∈ s.operations ++ [⟨request, phase⟩], P o := by
    intro P hold hnew
    rw [List.forall_mem_append, List.forall_mem_singleton]
    exact ⟨hold, hnew⟩
  exact
    { source := h.source
      keySource := hforall h.keySource (by rw [hkeys]; exact fun _ hmem => by cases hmem)
      ownSource := hforall h.ownSource fun key hown => absurd hown (hkey key)
      issuedRow := h.issuedRow
      issuedKey := by
        refine hforall h.issuedKey ?_
        rintro key (hmem | hown)
        · rw [hkeys] at hmem
          cases hmem
        · exact absurd hown (hkey key)
      unownedRow := hforall h.unownedRow fun key hown => absurd hown (hkey key)
      unownedKey := by
        refine hforall ?_ fun key hown => absurd hown (hkey key)
        intro o ho key hown
        refine hforall (h.unownedKey o ho key hown) ?_
        rw [hkeys]
        exact List.not_mem_nil
      reads := hforall h.reads fun hdeleting => by
        rw [hreads] at hdeleting
        cases hdeleting
      exclusive := h.exclusive.append hkey
      row := fun doc hdoc => (h.row doc hdoc).imp_right hex
      object := fun key hmem => (h.object key hmem).imp_right hex
      stored := hforall h.stored fun key hst => by
        rw [hstored] at hst
        cases hst
      removed := hforall h.removed (by rw [hremoved]; exact fun _ hmem => by cases hmem) }

/-- The key of an upload is new. -/
theorem parsed (h : StoreInv s) (hget : s.operations[i]? = some op) (hphase : op.phase = .parse)
    (hkey : key.sourceId = op.request.sourceId) (hfresh : key.documentId ∉ s.issued) :
    StoreInv ({ s with issued := key.documentId :: s.issued }.setPhase i op (.put key)) := by
  have hop : op ∈ s.operations := List.mem_of_getElem? hget
  have hnone : ∀ key', op.phase.owned ≠ some key' := by
    intro key' hown
    rw [hphase] at hown
    cases hown
  have hkeys : op.phase.keys = [] := by rw [hphase]; rfl
  have hnotKey : ∀ o ∈ s.operations, key ∉ o.phase.keys := fun o ho hmem =>
    hfresh (h.issuedKey o ho key (.inl hmem))
  have hnotOwned : ∀ o ∈ s.operations, o.phase.owned ≠ some key := fun o ho hown =>
    hfresh (h.issuedKey o ho key (.inr hown))
  exact
    { source := h.source
      keySource := forall_mem_set h.keySource fun _ hmem => by cases hmem
      ownSource := forall_mem_set h.ownSource fun key' hown => by
        obtain rfl : key = key' := Option.some.inj hown
        exact hkey
      issuedRow := fun doc hdoc => List.mem_cons_of_mem _ (h.issuedRow doc hdoc)
      issuedKey := by
        refine forall_mem_set (fun o ho key' hmem => ?_) ?_
        · exact List.mem_cons_of_mem _ (h.issuedKey o ho key' hmem)
        · rintro key' (hmem | hown)
          · cases hmem
          · obtain rfl : key = key' := Option.some.inj hown
            exact List.mem_cons_self
      unownedRow := forall_mem_set h.unownedRow fun key' hown doc hdoc heq => by
        obtain rfl : key = key' := Option.some.inj hown
        rw [← heq] at hfresh
        exact hfresh (h.issuedRow doc hdoc)
      unownedKey := by
        refine forall_mem_set (fun o ho key' hown => ?_) fun key' hown => ?_
        · exact forall_mem_set (h.unownedKey o ho key' hown) List.not_mem_nil
        · obtain rfl : key = key' := Option.some.inj hown
          exact forall_mem_set hnotKey List.not_mem_nil
      reads := forall_mem_set h.reads fun hdeleting => by cases hdeleting
      exclusive := by
        refine h.exclusive.set hget fun key' hown => .inr fun j o _ hj hother => ?_
        obtain rfl : key = key' := Option.some.inj hown
        exact hnotOwned o (List.mem_of_getElem? hj) hother
      row := fun doc hdoc => (h.row doc hdoc).imp_right fun hex =>
        exists_mem_set hget hex fun hmem => by
          have hmem' := Phase.mem_keys_of_removed hmem
          rw [hkeys] at hmem'
          cases hmem'
      object := fun key' hmem => (h.object key' hmem).imp_right fun hex =>
        exists_mem_set hget hex fun hst => absurd (Phase.owned_of_stored hst) (hnone key')
      stored := forall_mem_set h.stored fun _ hst => by cases hst
      removed := forall_mem_set h.removed fun _ hmem => by cases hmem }

/-- The object is stored before its row is. -/
theorem putObject (h : StoreInv s) (hget : s.operations[i]? = some op)
    (hphase : op.phase = .put key) :
    StoreInv ((s.putObject key).setPhase i op (.insert key)) := by
  have hop : op ∈ s.operations := List.mem_of_getElem? hget
  have hown : op.phase.owned = some key := by rw [hphase]; rfl
  have hinv : KeysInv ((s.putObject key).setPhase i op (.insert key)) :=
    h.toKeysInv.set hget rfl rfl
      (fun key' hkey' => by
        obtain rfl : key = key' := Option.some.inj hkey'
        exact hown)
      (fun _ hmem => by cases hmem) (fun hdeleting => by cases hdeleting)
      fun _ hdoc => .inl hdoc
  exact
    { hinv with
      row := by
        intro doc hdoc
        refine (h.row doc hdoc).imp (List.mem_cons_of_mem _) fun hex => exists_mem_set hget hex ?_
        intro hmem
        rw [hphase] at hmem
        cases hmem
      object := by
        intro key' hmem
        obtain rfl | hmem := List.mem_cons.mp hmem
        · exact .inr ⟨_, List.mem_set (List.getElem?_eq_some_iff.mp hget).1 _, rfl⟩
        · refine (h.object key' hmem).imp_right fun hex => exists_mem_set hget hex ?_
          intro hst
          rw [hphase] at hst
          cases hst
      stored := by
        refine forall_mem_set ?_ ?_
        · exact fun o ho key' hst => List.mem_cons_of_mem _ (h.stored o ho key' hst)
        · intro key' hst
          obtain rfl : key = key' := Option.some.inj hst
          exact List.mem_cons_self
      removed := by
        refine forall_mem_set ?_ fun _ hmem => by cases hmem
        intro o ho key' hmem hin
        obtain rfl | hin := List.mem_cons.mp hin
        · exact h.unownedKey op hop key' hown o ho (Phase.mem_keys_of_removed hmem)
        · exact h.removed o ho key' hmem hin }

/-- The row comes in, and the object is no longer that of an upload in progress. -/
theorem insertDocument (h : StoreInv s) (hget : s.operations[i]? = some op)
    (hphase : op.phase = .insert key) {doc : Document} (hkey : doc.objectKey = key)
    (hsource : doc.sourceId = op.request.sourceId)
    (hundisturbed : s.undisturbed op.request.sourceId = true) (answer : Answer) :
    StoreInv ((s.insertDocument doc).setPhase i op (.ended answer)) := by
  have hop : op ∈ s.operations := List.mem_of_getElem? hget
  have hown : op.phase.owned = some doc.objectKey := by rw [hphase, hkey]; rfl
  have hinv : KeysInv ((s.insertDocument doc).setPhase i op (.ended answer)) :=
    h.toKeysInv.set hget rfl rfl (fun _ hkey' => by cases hkey') (fun _ hmem => by cases hmem)
      (fun hdeleting => by cases hdeleting)
      fun doc' hdoc => (List.mem_append.mp hdoc).imp_right fun hnew => by
        obtain rfl := List.mem_singleton.mp hnew
        exact ⟨hown, hsource, rfl, rfl, by rwa [hsource]⟩
  exact
    { hinv with
      row := by
        intro doc' hdoc
        obtain hold | hnew := List.mem_append.mp hdoc
        · refine (h.row doc' hold).imp_right fun hex => exists_mem_set hget hex ?_
          intro hmem
          rw [hphase] at hmem
          cases hmem
        · obtain rfl := List.mem_singleton.mp hnew
          exact .inl (h.stored op hop _ (by rw [hphase, hkey]; rfl))
      object := by
        intro key' hmem
        by_cases heq : doc.objectKey = key'
        · exact .inl ⟨doc, List.mem_append_right _ (List.mem_singleton_self doc), heq⟩
        · refine (h.object key' hmem).imp ?_ fun hex => exists_mem_set hget hex ?_
          · rintro ⟨doc', hdoc, heq'⟩
            exact ⟨doc', List.mem_append_left _ hdoc, heq'⟩
          · intro hst
            rw [hphase] at hst
            exact absurd (hkey.trans (Option.some.inj hst)) heq
      stored := forall_mem_set h.stored fun _ hst => by cases hst
      removed := forall_mem_set h.removed fun _ hmem => by cases hmem }

/-- The object of an upload that has failed goes. -/
theorem cleanup (h : StoreInv s) (hget : s.operations[i]? = some op) {answer : Answer}
    (hphase : op.phase = .cleanup key answer) (answer' : Answer) :
    StoreInv ((s.removeObject key).setPhase i op (.ended answer')) := by
  have hop : op ∈ s.operations := List.mem_of_getElem? hget
  have hown : op.phase.owned = some key := by rw [hphase]; rfl
  have hinv : KeysInv ((s.removeObject key).setPhase i op (.ended answer')) :=
    h.toKeysInv.set hget rfl rfl (fun _ hkey => by cases hkey) (fun _ hmem => by cases hmem)
      (fun hdeleting => by cases hdeleting) fun _ hdoc => .inl hdoc
  exact
    { hinv with
      row := by
        intro doc hdoc
        have hne : doc.objectKey ≠ key := h.unownedRow op hop key hown doc hdoc
        refine (h.row doc hdoc).imp (fun hmem => ?_) fun hex => exists_mem_set hget hex ?_
        · exact List.mem_filter.mpr ⟨hmem, by simpa using hne⟩
        · intro hmem
          rw [hphase] at hmem
          cases hmem
      object := by
        intro key' hmem
        obtain ⟨hold, hne⟩ := List.mem_filter.mp hmem
        refine (h.object key' hold).imp_right fun hex => exists_mem_set hget hex ?_
        intro hst
        rw [hphase] at hst
        obtain rfl : key = key' := Option.some.inj hst
        simp at hne
      stored := by
        intro o ho key' hst
        obtain ⟨j, hj⟩ := List.mem_iff_getElem?.mp ho
        obtain ⟨rfl, rfl⟩ | ⟨hne, hj⟩ := getElem?_set_cases hj
        · cases hst
        · refine List.mem_filter.mpr ⟨h.stored o (List.mem_of_getElem? hj) key' hst, ?_⟩
          have hkey : key' ≠ key := by
            rintro rfl
            exact hne (h.exclusive i j op o key' hget hj hown (Phase.owned_of_stored hst))
          simpa using hkey
      removed := by
        refine forall_mem_set ?_ fun _ hmem => by cases hmem
        exact fun o ho key' hmem hin => h.removed o ho key' hmem (List.mem_filter.mp hin).1 }

/-- A deletion removes the object of one of the rows that it has read. -/
theorem removeObject (h : StoreInv s) (hget : s.operations[i]? = some op)
    {removed rest : List ObjectKey} (hphase : op.phase = .removing removed (key :: rest)) :
    StoreInv ((s.removeObject key).setPhase i op (.removing (key :: removed) rest)) := by
  have hop : op ∈ s.operations := List.mem_of_getElem? hget
  have hmemKeys : ∀ key', key' ∈ (key :: removed) ++ rest → key' ∈ op.phase.keys := by
    intro key' hmem
    rw [hphase]
    simp only [Phase.keys, List.mem_append, List.mem_cons] at hmem ⊢
    tauto
  have hreads : ∀ doc ∈ s.documents, doc.sourceId = op.request.sourceId →
      doc.objectKey ∈ (key :: removed) ++ rest := by
    intro doc hdoc hsource
    have hread := h.reads op hop (by rw [hphase]; rfl) doc hdoc hsource
    rw [hphase] at hread
    simp only [Phase.keys, List.mem_append, List.mem_cons] at hread ⊢
    tauto
  have hinv : KeysInv
      ((s.removeObject key).setPhase i op (.removing (key :: removed) rest)) :=
    h.toKeysInv.set hget rfl rfl (fun _ hkey => by cases hkey)
      (fun key' hmem => .inl (hmemKeys key' hmem))
      (fun _ doc hdoc hsource => hreads doc hdoc hsource) fun _ hdoc => .inl hdoc
  have hlt : i < s.operations.length := (List.getElem?_eq_some_iff.mp hget).1
  exact
    { hinv with
      row := by
        intro doc hdoc
        by_cases heq : doc.objectKey = key
        · refine .inr ⟨_, List.mem_set hlt _, ?_⟩
          rw [heq]
          exact List.mem_cons_self
        · refine (h.row doc hdoc).imp (fun hmem => ?_) fun hex => exists_mem_set hget hex ?_
          · exact List.mem_filter.mpr ⟨hmem, by simpa using heq⟩
          · intro hmem
            rw [hphase] at hmem
            exact List.mem_cons_of_mem _ hmem
      object := by
        intro key' hmem
        refine (h.object key' (List.mem_filter.mp hmem).1).imp_right fun hex =>
          exists_mem_set hget hex ?_
        intro hst
        rw [hphase] at hst
        cases hst
      stored := by
        refine forall_mem_set ?_ fun _ hst => by cases hst
        intro o ho key' hst
        refine List.mem_filter.mpr ⟨h.stored o ho key' hst, ?_⟩
        have hne : key' ≠ key := by
          rintro rfl
          exact h.unownedKey o ho key' (Phase.owned_of_stored hst) op hop
            (hmemKeys key' List.mem_cons_self)
        simpa using hne
      removed := by
        refine forall_mem_set ?_ ?_
        · exact fun o ho key' hmem hin => h.removed o ho key' hmem (List.mem_filter.mp hin).1
        · intro key' hmem hin
          obtain ⟨hold, hne⟩ := List.mem_filter.mp hin
          obtain rfl | hmem := List.mem_cons.mp hmem
          · simp at hne
          · exact h.removed op hop key' (by rw [hphase]; exact hmem) hold }

/-- A deletion is given up before it has removed anything, or when the rows have gone. -/
theorem abandon (h : StoreInv s) (hget : s.operations[i]? = some op)
    {removed remaining : List ObjectKey} (hphase : op.phase = .removing removed remaining)
    (hgone : removed = [] ∨ s.hasRows op.request.sourceId = false) (answer : Answer) :
    StoreInv (s.setPhase i op (.ended answer)) := by
  have hrows : ∀ doc ∈ s.documents, doc.objectKey ∉ removed := by
    intro doc hdoc hmem
    obtain rfl | hgone := hgone
    · cases hmem
    · have hkey := h.keySource op (List.mem_of_getElem? hget) doc.objectKey (by
        rw [hphase]
        exact List.mem_append_left _ hmem)
      rw [h.source doc hdoc] at hkey
      exact Store.ne_of_hasRows hgone hdoc hkey
  have hinv : KeysInv (s.setPhase i op (.ended answer)) :=
    h.toKeysInv.set hget rfl rfl (fun _ hkey => by cases hkey) (fun _ hmem => by cases hmem)
      (fun hdeleting => by cases hdeleting) fun _ hdoc => .inl hdoc
  exact
    { hinv with
      row := fun doc hdoc => (h.row doc hdoc).imp_right fun hex =>
        exists_mem_set hget hex fun hmem => by
          rw [hphase] at hmem
          exact absurd hmem (hrows doc hdoc)
      object := fun key' hmem => (h.object key' hmem).imp_right fun hex =>
        exists_mem_set hget hex fun hst => by
          rw [hphase] at hst
          cases hst
      stored := forall_mem_set h.stored fun _ hst => by cases hst
      removed := forall_mem_set h.removed fun _ hmem => by cases hmem }

/-- The rows of the source go, whose objects have all been removed. -/
theorem deleteSource (h : StoreInv s) (hget : s.operations[i]? = some op)
    {removed : List ObjectKey} (hphase : op.phase = .removing removed []) (answer : Answer) :
    StoreInv ((s.deleteSource op.request.sourceId).setPhase i op (.ended answer)) := by
  have hop : op ∈ s.operations := List.mem_of_getElem? hget
  have hrows : ∀ doc ∈ s.documents, doc.sourceId = op.request.sourceId →
      doc.objectKey ∈ removed := by
    intro doc hdoc hsource
    have hread := h.reads op hop (by rw [hphase]; rfl) doc hdoc hsource
    rwa [hphase, Phase.keys, List.append_nil] at hread
  have hinv : KeysInv ((s.deleteSource op.request.sourceId).setPhase i op (.ended answer)) :=
    h.toKeysInv.set hget rfl rfl (fun _ hkey => by cases hkey) (fun _ hmem => by cases hmem)
      (fun hdeleting => by cases hdeleting) fun _ hdoc => .inl (List.mem_filter.mp hdoc).1
  have hremoved : op.phase.removed = removed := by rw [hphase]; rfl
  exact
    { hinv with
      row := by
        intro doc hdoc
        obtain ⟨hold, hne⟩ := List.mem_filter.mp hdoc
        refine (h.row doc hold).imp_right fun hex => exists_mem_set hget hex ?_
        intro hmem
        have hsource := h.keySource op hop _ (Phase.mem_keys_of_removed hmem)
        rw [h.source doc hold] at hsource
        simp [hsource] at hne
      object := by
        intro key' hmem
        refine (h.object key' hmem).imp ?_ fun hex => exists_mem_set hget hex ?_
        · rintro ⟨doc, hdoc, rfl⟩
          refine ⟨doc, List.mem_filter.mpr ⟨hdoc, ?_⟩, rfl⟩
          have hne : doc.sourceId ≠ op.request.sourceId := by
            intro hsource
            have hgone := hrows doc hdoc hsource
            rw [← hremoved] at hgone
            exact h.removed op hop _ hgone hmem
          simpa using hne
        · intro hst
          rw [hphase] at hst
          cases hst
      stored := forall_mem_set h.stored fun _ hst => by cases hst
      removed := forall_mem_set h.removed fun _ hmem => by cases hmem }

/-- An operation that holds nothing ends, or goes on to a call that needs nothing. -/
theorem settle (h : StoreInv s) (hget : s.operations[i]? = some op)
    (hstored : op.phase.stored = none) (hremoved : op.phase.removed = [])
    (hphase : phase.stored = none ∧ phase.owned = none ∧ phase.keys = [] ∧
      phase.deleting = false) : StoreInv (s.setPhase i op phase) := by
  obtain ⟨hnone, howned, hkeys, hdeleting⟩ := hphase
  refine h.setPhase hget (hnone.trans hstored.symm) ?_ ?_ ?_ ?_
  · rw [hremoved, List.eq_nil_iff_forall_not_mem]
    intro key hmem
    have hmem' := Phase.mem_keys_of_removed hmem
    rw [hkeys] at hmem'
    cases hmem'
  · intro key hown
    rw [howned] at hown
    cases hown
  · rw [hkeys]
    exact fun _ hmem => by cases hmem
  · rw [hdeleting]
    exact fun hfalse => by cases hfalse

theorem finish (h : StoreInv s) (hget : s.operations[i]? = some op)
    (hstored : op.phase.stored = none) (hremoved : op.phase.removed = []) (answer : Answer) :
    StoreInv (s.setPhase i op (.ended answer)) :=
  h.settle hget hstored hremoved ⟨rfl, rfl, rfl, rfl⟩

theorem upload (h : StoreInv s) {e : Event} {sourceId filename sha256 : String}
    (hget : s.operations[i]? = some op)
    (hrequest : op.request = .uploadDocument sourceId filename sha256)
    (hgood : Undone s (.event i e))
    (hstep : uploadStep s i op sourceId filename sha256 e = some s') : StoreInv s' := by
  obtain ⟨request, phase⟩ := op
  have hundone := hgood _ hget
  have hsource : request.sourceId = sourceId := by
    rw [show request = _ from hrequest]
    rfl
  cases phase with
  | checkSource =>
      cases e with
      | returned =>
          simp only [uploadStep] at hstep
          split at hstep
          next =>
            cases hstep
            exact h.finish hget rfl rfl _
          next =>
            split at hstep
            next =>
              cases hstep
              exact h.finish hget rfl rfl _
            next =>
              cases hstep
              exact h.settle hget rfl rfl ⟨rfl, rfl, rfl, rfl⟩
      | parsed documentId => cases hstep
      | raised expected done =>
          cases hstep
          exact h.finish hget rfl rfl _
      | cancelled done =>
          cases hstep
          exact h.finish hget rfl rfl _
  | parse =>
      cases e with
      | returned => cases hstep
      | parsed documentId =>
          simp only [uploadStep] at hstep
          split at hstep
          next => cases hstep
          next hfresh =>
            cases hstep
            have hfresh' : (ObjectKey.mk sourceId documentId filename).documentId ∉ s.issued :=
              hfresh
            exact h.parsed hget rfl hsource.symm hfresh'
      | raised expected done =>
          cases hstep
          exact h.finish hget rfl rfl _
      | cancelled done =>
          cases hstep
          exact h.finish hget rfl rfl _
  | put key =>
      cases e with
      | returned =>
          cases hstep
          exact h.putObject hget rfl
      | parsed documentId => cases hstep
      -- No `except` clause removes the object, so it must not have been stored.
      | raised expected done =>
          obtain rfl : done = false := of_decide_eq_true hundone
          cases hstep
          exact h.finish hget rfl rfl _
      | cancelled done =>
          obtain rfl : done = false := of_decide_eq_true hundone
          cases hstep
          exact h.finish hget rfl rfl _
  | insert key =>
      cases e with
      | returned =>
          simp only [uploadStep] at hstep
          split at hstep
          next =>
            cases hstep
            exact h.insertDocument hget rfl rfl hsource.symm hundone _
          next => cases hstep
      | parsed documentId => cases hstep
      -- The transaction is rolled back; the object goes in the cleanup.
      | raised expected done =>
          obtain rfl : done = false := by simpa [UndoneBy] using hundone
          cases hstep
          exact h.setPhase hget rfl rfl (fun _ hkey => hkey) (fun _ hmem => by cases hmem)
            fun hdeleting => by cases hdeleting
      -- There is no cleanup after a cancellation, so the row must be there.
      | cancelled done =>
          obtain ⟨rfl, hundisturbed⟩ : done = true ∧ s.undisturbed request.sourceId = true := by
            simpa [UndoneBy] using hundone
          simp only [uploadStep] at hstep
          split at hstep
          next => cases hstep
          next =>
            cases hstep
            exact h.insertDocument hget rfl rfl hsource.symm hundisturbed _
  | cleanup key answer =>
      cases e with
      | returned =>
          cases hstep
          exact h.cleanup hget rfl _
      | parsed documentId => cases hstep
      | raised expected done =>
          obtain rfl : done = true := hundone
          cases hstep
          exact h.cleanup hget rfl _
      | cancelled done =>
          obtain rfl : done = true := hundone
          cases hstep
          exact h.cleanup hget rfl _
  | fetch => cases hstep
  | checkExists keys => cases hstep
  | removing removed remaining => cases hstep
  | ended answer => cases hstep

theorem setPhase_setPhase (s : Store) (i : Nat) (op : Operation) (phase phase' : Phase) :
    (s.setPhase i op phase).setPhase i { op with phase := phase } phase' =
      s.setPhase i op phase' := by
  simp [Store.setPhase, List.set_set]

/-- A deletion that is given up after it has removed another object, when the rows have gone. -/
theorem abandonRemoved (h : StoreInv s) (hget : s.operations[i]? = some op)
    {removed rest : List ObjectKey} (hphase : op.phase = .removing removed (key :: rest))
    (hgone : s.hasRows op.request.sourceId = false) (answer : Answer) :
    StoreInv ((s.removeObject key).setPhase i op (.ended answer)) := by
  have hnext := h.removeObject hget hphase
  have hlt : i < s.operations.length := (List.getElem?_eq_some_iff.mp hget).1
  have hgetNext : ((s.removeObject key).setPhase i op
      (.removing (key :: removed) rest)).operations[i]? =
        some { op with phase := .removing (key :: removed) rest } :=
    List.getElem?_set_self hlt
  have hended := hnext.abandon hgetNext rfl (.inr hgone) answer
  rwa [setPhase_setPhase] at hended

theorem delete (h : StoreInv s) {e : Event} {sourceId : String}
    (hget : s.operations[i]? = some op) (hrequest : op.request = .deleteSource sourceId)
    (hgood : Undone s (.event i e)) (hstep : deleteStep s i op sourceId e = some s') :
    StoreInv s' := by
  obtain ⟨request, phase⟩ := op
  have hundone := hgood _ hget
  obtain rfl : request = .deleteSource sourceId := hrequest
  cases phase with
  | fetch =>
      cases e with
      | returned =>
          cases hstep
          refine h.setPhase hget rfl rfl (fun _ hkey => by cases hkey) (fun key hmem => .inr ?_) ?_
          · obtain ⟨doc, hdoc, rfl⟩ := List.mem_map.mp hmem
            obtain ⟨hold, hsource⟩ := List.mem_filter.mp hdoc
            exact ⟨doc, hold, rfl, of_decide_eq_true hsource⟩
          · intro _ doc hdoc hsource
            exact List.mem_map_of_mem (List.mem_filter.mpr ⟨hdoc, decide_eq_true hsource⟩)
      | parsed documentId => cases hstep
      | raised expected done =>
          cases hstep
          exact h.finish hget rfl rfl _
      | cancelled done =>
          cases hstep
          exact h.finish hget rfl rfl _
  | checkExists keys =>
      cases e with
      | returned =>
          simp only [deleteStep] at hstep
          split at hstep
          next =>
            cases hstep
            exact h.setPhase hget rfl rfl (fun _ hkey => by cases hkey) (fun _ hmem => .inl hmem)
              fun _ => h.reads _ (List.mem_of_getElem? hget) rfl
          next =>
            cases hstep
            exact h.finish hget rfl rfl _
      | parsed documentId => cases hstep
      | raised expected done =>
          cases hstep
          exact h.finish hget rfl rfl _
      | cancelled done =>
          cases hstep
          exact h.finish hget rfl rfl _
  | removing removed remaining =>
      cases remaining with
      | cons key rest =>
          -- Where an object has gone before the failure, no row may be left that names it.
          have hfail : ∀ (done : Bool) answer,
              removed = [] ∧ done = false ∨ s.hasRows sourceId = false →
              StoreInv ((s.effect done (·.removeObject key)).setPhase i
                ⟨.deleteSource sourceId, .removing removed (key :: rest)⟩ (.ended answer)) := by
            rintro done answer (⟨rfl, rfl⟩ | hgone)
            · exact h.abandon hget rfl (.inl rfl) answer
            · cases done with
              | true => exact h.abandonRemoved hget rfl hgone answer
              | false => exact h.abandon hget rfl (.inr hgone) answer
          cases e with
          | returned =>
              cases hstep
              exact h.removeObject hget rfl
          | parsed documentId => cases hstep
          | raised expected done =>
              cases hstep
              refine hfail done _ ?_
              cases removed <;>
                simpa [UndoneBy, Event.returns, Event.done, Request.sourceId] using hundone
          | cancelled done =>
              cases hstep
              refine hfail done _ ?_
              cases removed <;>
                simpa [UndoneBy, Event.returns, Event.done, Request.sourceId] using hundone
      | nil =>
          -- All objects have been removed: the rows must go, or have gone.
          have hfail : ∀ (done : Bool) answer, done = true ∨ s.hasRows sourceId = false →
              StoreInv ((s.effect done (·.deleteSource sourceId)).setPhase i
                ⟨.deleteSource sourceId, .removing removed []⟩ (.ended answer)) := by
            intro done answer hgone
            cases done with
            | true => exact h.deleteSource hget rfl answer
            | false => exact h.abandon hget rfl (.inr (hgone.resolve_left (by simp))) answer
          cases e with
          | returned =>
              cases hstep
              exact hfail true _ (.inl rfl)
          | parsed documentId => cases hstep
          | raised expected done =>
              cases hstep
              refine hfail done _ ?_
              simpa [UndoneBy, Event.done, Request.sourceId] using hundone
          | cancelled done =>
              cases hstep
              refine hfail done _ ?_
              simpa [UndoneBy, Event.done, Request.sourceId] using hundone
  | checkSource => cases hstep
  | parse => cases hstep
  | put key => cases hstep
  | insert key => cases hstep
  | cleanup key answer => cases hstep
  | ended answer => cases hstep

theorem step {a : Action} (h : StoreInv s) (hgood : Undone s a)
    (hstep : Knowledge.step s a = some s') : StoreInv s' := by
  cases a with
  | start request =>
      cases hstep
      cases request with
      | uploadDocument sourceId filename sha256 => exact h.start rfl rfl rfl rfl
      | deleteSource sourceId => exact h.start rfl rfl rfl rfl
  | event i e =>
      obtain ⟨op, hget, hstep⟩ := Option.bind_eq_some_iff.mp hstep
      cases hrequest : op.request with
      | uploadDocument sourceId filename sha256 =>
          rw [hrequest] at hstep
          exact h.upload hget hrequest hgood hstep
      | deleteSource sourceId =>
          rw [hrequest] at hstep
          exact h.delete hget hrequest hgood hstep

theorem init (h : system.init s) : StoreInv s := by
  obtain ⟨hinStep, hnil, hrows⟩ := h
  have hnone : ∀ {P : Operation → Prop}, ∀ op ∈ s.operations, P op := by
    intro P op hop
    rw [hnil] at hop
    cases hop
  exact
    { source := fun doc hdoc => (hrows doc hdoc).1
      keySource := hnone
      ownSource := hnone
      issuedRow := fun doc hdoc => (hrows doc hdoc).2
      issuedKey := hnone
      unownedRow := hnone
      unownedKey := hnone
      reads := hnone
      exclusive := by
        rw [hnil]
        exact Exclusive.nil
      row := fun doc hdoc => .inl (hinStep.row doc hdoc)
      object := fun key hkey => .inl (hinStep.object key hkey)
      stored := hnone
      removed := hnone }

/-- Without an operation in progress nothing is between the stores. -/
theorem inStep (h : StoreInv s) (hended : ∀ op ∈ s.operations, op.phase.hasEnded) : InStep s where
  object := by
    intro key hkey
    refine (h.object key hkey).resolve_right ?_
    rintro ⟨op, hop, hstored⟩
    have hend := hended op hop
    cases hphase : op.phase <;> simp [hphase, Phase.stored, Phase.hasEnded] at hstored hend
  row := by
    intro doc hdoc
    refine (h.row doc hdoc).resolve_right ?_
    rintro ⟨op, hop, hmem⟩
    have hend := hended op hop
    cases hphase : op.phase <;> simp [hphase, Phase.removed, Phase.hasEnded] at hmem hend

end StoreInv

end Steps

/-- **The stores stay in step**, in every run in which a call that fails leaves nothing that is
    not undone, and no document comes into a source while it is being deleted. -/
theorem stores_in_step {s : Store} (h : system.Reachable Undone s)
    (hended : ∀ op ∈ s.operations, op.phase.hasEnded) : InStep s :=
  (h.invariant StoreInv (fun _ => StoreInv.init)
    fun _ _ _ hinv hgood hstep => hinv.step hgood hstep).inStep hended

/-! ## Runs -/

def oneSource : Store :=
  { objects := []
    sources := [⟨"source", "active"⟩]
    documents := []
    issued := []
    operations := [] }

theorem oneSource_init : system.init oneSource :=
  ⟨⟨fun _ hkey => (by cases hkey), fun _ hdoc => (by cases hdoc)⟩, rfl, fun _ hdoc => by cases hdoc⟩

/-- An upload of the text, up to its object. -/
def uploadObject (i documentId : Nat) : List Action :=
  [.start (.uploadDocument "source" "a.txt" "sha"), .event i .returned,
    .event i (.parsed documentId), .event i .returned]

/-- A document is stored, the same text is refused, and the source is deleted. -/
def refusedUpload : List Action :=
  uploadObject 0 1 ++ [.event 0 .returned] ++ uploadObject 1 2 ++
    [.event 1 (.raised true false), .start (.deleteSource "source"), .event 2 .returned,
      .event 1 (.cancelled true), .event 2 .returned, .event 2 .returned, .event 2 .returned]

theorem stores_in_step_refusedUpload : ∃ s,
    system.exec oneSource refusedUpload = some s ∧ s.documents = [] ∧ s.objects = [] ∧
      InStep s := by
  refine ⟨_, rfl, by decide, by decide, ?_⟩
  refine stores_in_step ⟨oneSource, oneSource_init, ?_⟩ (by decide)
  exact System.path_of_allowed refusedUpload (by decide) rfl

/-- The request is cancelled in the transaction. -/
def cancelledUpload : List Action := uploadObject 0 1 ++ [.event 0 (.cancelled false)]

/-- The request is cancelled between the objects and the rows. -/
def failedDeletion : List Action :=
  uploadObject 0 1 ++ [.event 0 .returned, .start (.deleteSource "source"), .event 1 .returned,
    .event 1 .returned, .event 1 .returned, .event 1 (.cancelled false)]

theorem failures_part_stores :
    (∃ s, system.exec oneSource cancelledUpload = some s ∧
      (∀ op ∈ s.operations, op.phase.hasEnded) ∧
      s.objects = [⟨"source", 1, "a.txt"⟩] ∧ s.documents = [] ∧ ¬ InStep s) ∧
    ∃ s, system.exec oneSource failedDeletion = some s ∧
      (∀ op ∈ s.operations, op.phase.hasEnded) ∧
      s.objects = [] ∧ s.documents.map (·.objectKey) = [⟨"source", 1, "a.txt"⟩] ∧
      ¬ InStep s := by
  refine ⟨⟨_, rfl, by decide, by decide, by decide, ?_⟩, _, rfl, by decide, by decide, by decide,
    ?_⟩
  · intro hinStep
    obtain ⟨doc, hdoc, -⟩ := hinStep.object _ List.mem_cons_self
    cases hdoc
  · intro hinStep
    cases hinStep.row _ List.mem_cons_self

end Knowledge
end HermesPlatform
