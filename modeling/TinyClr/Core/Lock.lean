import TinyClr.Core.Scheduler
import Mathlib.Logic.Function.Basic

/-!
# Locks

`CLR_RT_HeapBlock_Lock` and `CLR_RT_HeapBlock_LockRequest` (`CLR/Core/CLR_RT_HeapBlock_Lock.cpp`,
`CLR_RT_HeapBlock_LockRequest.cpp`) with `LockObject`, `UnlockObject` and `DeleteLockRequests`
(`CLR/Core/Execution.cpp`) and the parts of `CLR_RT_SubThread` that reach them
(`CLR/Core/Thread.cpp`).

The resources are objects that point to their lock, so that a lock is known by its resource.  No
request expires: the callers of `LockObject` pass `TIMEOUT_INFINITE`.  The frames of a subthread
have been popped when it is destroyed.
-/

namespace TinyClr.Locks

open TinyClr.ExecutionEngine (Status)

structure Owner where
  m_owningSubThread : Nat
  m_recursion : UInt32
deriving DecidableEq, Repr

/-- `CLR_RT_HeapBlock_Lock`; `m_requests` has the `m_subthreadWaiting` of each request. -/
structure Lock where
  m_owningThread : Nat
  m_owners : List Owner
  m_requests : List Nat
deriving DecidableEq, Repr

/-- The locks of the objects, those in the list of each thread, and the requests that are counted
    for a subthread and for a thread -/
structure Engine where
  objectLock : Nat → Option Lock
  m_locks : Nat → List Nat
  m_lockRequestsCount : Nat → Int
  threadLockRequestsCount : Nat → Int
  m_status : Nat → Status

def initial : Engine := ⟨fun _ => none, fun _ => [], fun _ => 0, fun _ => 0, fun _ => .ready⟩

/-- Whether the event cache has a node -/
structure Answers where
  lock : Bool
  owner : Bool
  request : Bool

/-- `S_OK`, `CLR_E_THREAD_WAITING`, `CLR_E_OUT_OF_MEMORY`, `CLR_E_LOCK_SYNCHRONIZATION_EXCEPTION` -/
inductive Result where
  | ok
  | threadWaiting
  | outOfMemory
  | lockSynchronizationException
deriving DecidableEq, Repr

def Engine.setLock (s : Engine) (resource : Nat) (lock : Option Lock) : Engine :=
  { s with objectLock := Function.update s.objectLock resource lock }

def Engine.unlink (s : Engine) (resource : Nat) : Engine :=
  { s with m_locks := fun th => (s.m_locks th).filter (· ≠ resource) }

def Engine.linkAtBack (s : Engine) (resource th : Nat) : Engine :=
  { s with
    m_locks := Function.update (s.unlink resource).m_locks th
      ((s.unlink resource).m_locks th ++ [resource]) }

/-- The loop over the owners up to that of a subthread -/
def atOwner (sth : Nat) (f : Owner → List Owner) : List Owner → Option (List Owner)
  | [] => none
  | owner :: owners =>
      if owner.m_owningSubThread = sth then some (f owner ++ owners)
      else (atOwner sth f owners).map (owner :: ·)

section

variable (thread : Nat → Nat)

/-- `ChangeLockRequestCount`; `thread` has the `m_owningThread` of a subthread. -/
def Engine.changeLockRequestCount (s : Engine) (sth : Nat) (diff : Int) : Engine × Bool :=
  let count := s.threadLockRequestsCount (thread sth) + diff
  ({ s with
      m_lockRequestsCount :=
        Function.update s.m_lockRequestsCount sth (s.m_lockRequestsCount sth + diff)
      threadLockRequestsCount := Function.update s.threadLockRequestsCount (thread sth) count
      m_status := Function.update s.m_status (thread sth) (if count = 0 then .ready else .waiting) },
    count = 0)

/-- `IncrementOwnership`, with `CLR_RT_HeapBlock_LockRequest::CreateInstance` -/
def Engine.incrementOwnership (s : Engine) (resource : Nat) (lock : Lock) (sth : Nat)
    (answers : Answers) : Engine × Result :=
  if lock.m_owningThread = thread sth then
    match atOwner sth (fun owner => [{ owner with m_recursion := owner.m_recursion + 1 }])
        lock.m_owners with
    | some owners => (s.setLock resource (some { lock with m_owners := owners }), .ok)
    | none =>
        if answers.owner then
          (s.setLock resource (some { lock with m_owners := ⟨sth, 1⟩ :: lock.m_owners }), .ok)
        else (s, .outOfMemory)
  else if answers.request then
    (((s.setLock resource (some { lock with
        m_requests := lock.m_requests ++ [sth] })).changeLockRequestCount thread sth 1).1,
      .threadWaiting)
  else (s, .outOfMemory)

def Engine.changeOwner (s : Engine) (resource : Nat) (lock : Lock) (answers : Answers) : Engine :=
  match lock.m_requests with
  | [] => (s.unlink resource).setLock resource none
  | sth :: requests =>
      let s := (s.changeLockRequestCount thread sth (-1)).1
      let lock : Lock := ⟨thread sth, [], requests⟩
      let s := (s.linkAtBack resource (thread sth)).setLock resource (some lock)
      (s.incrementOwnership thread resource lock sth answers).1

def Engine.setOwners (s : Engine) (resource : Nat) (lock : Lock) (owners : List Owner)
    (answers : Answers) : Engine :=
  if owners = [] then s.changeOwner thread resource lock answers
  else s.setLock resource (some { lock with m_owners := owners })

def Engine.lockObject (s : Engine) (resource sth : Nat) (answers : Answers) : Engine × Result :=
  match s.objectLock resource with
  | some lock => s.incrementOwnership thread resource lock sth answers
  | none =>
      if answers.lock then
        let lock : Lock := ⟨thread sth, [], []⟩
        ((s.linkAtBack resource (thread sth)).setLock resource (some lock)).incrementOwnership
          thread resource lock sth answers
      else (s, .outOfMemory)

def Engine.unlockObject (s : Engine) (resource sth : Nat) (answers : Answers) : Engine × Result :=
  match s.objectLock resource with
  | none => (s, .lockSynchronizationException)
  | some lock =>
      if lock.m_owningThread = thread sth then
        match atOwner sth (fun owner =>
            if owner.m_recursion - 1 = 0 then []
            else [{ owner with m_recursion := owner.m_recursion - 1 }]) lock.m_owners with
        | some owners => (s.setOwners thread resource lock owners answers, .ok)
        | none => (s, .lockSynchronizationException)
      else (s, .lockSynchronizationException)

def Engine.destroyOwner (s : Engine) (resource sth : Nat) (answers : Answers) : Engine :=
  match s.objectLock resource with
  | none => s
  | some lock =>
      s.setOwners thread resource lock (lock.m_owners.filter (·.m_owningSubThread ≠ sth)) answers

/-- `DestroyOwner` of the locks in a list.  What a thread gives up goes to other threads, so that
    the loop sees the list as it was. -/
def destroyOwners (sth : Nat) (answers : Answers) : List Nat → Engine → Engine
  | [], s => s
  | resource :: resources, s =>
      destroyOwners sth answers resources (s.destroyOwner thread resource sth answers)

def Engine.deleteRequest (s : Engine) (sth resource : Nat) : Engine × Bool :=
  (s.setLock resource ((s.objectLock resource).map fun lock =>
    { lock with m_requests := lock.m_requests.erase sth })).changeLockRequestCount thread sth (-1)

/-- The requests of one lock; true when the loops are left -/
def deleteRequests (sth resource : Nat) : List Nat → Engine → Engine × Bool
  | [], s => (s, false)
  | req :: requests, s =>
      if req = sth then
        let r := s.deleteRequest thread req resource
        if r.2 then (r.1, true) else deleteRequests sth resource requests r.1
      else deleteRequests sth resource requests s

def deleteFromLocks (sth : Nat) : List Nat → Engine → Engine
  | [], s => s
  | resource :: resources, s =>
      let requests := ((s.objectLock resource).map Lock.m_requests).getD []
      let r := deleteRequests thread sth resource requests s
      if r.2 then r.1 else deleteFromLocks sth resources r.1

/-- `DeleteLockRequests( NULL, sth )`, with the threads of `m_threadsReady` and `m_threadsWaiting` -/
def Engine.deleteLockRequests (s : Engine) (sth : Nat) (threadsReady threadsWaiting : List Nat) :
    Engine :=
  if s.m_lockRequestsCount sth = 0 then s
  else
    let s := deleteFromLocks thread sth (threadsReady.flatMap s.m_locks) s
    deleteFromLocks thread sth (threadsWaiting.flatMap s.m_locks) s

/-! ### Events -/

/-- `Enter` and `Exit` of `Monitor`, or of a synchronized method, and one iteration of
    `CLR_RT_SubThread::DestroyInstance` -/
inductive Event where
  | enter (resource sth : Nat) (answers : Answers)
  | exit (resource sth : Nat) (answers : Answers)
  | destroy (sth : Nat) (answers : Answers) (threadsReady threadsWaiting : List Nat)

def step (s : Engine) : Event → Option (Engine × Result)
  | .enter resource sth answers => some (s.lockObject thread resource sth answers)
  | .exit resource sth answers => some (s.unlockObject thread resource sth answers)
  | .destroy sth answers threadsReady threadsWaiting =>
      some ((destroyOwners thread sth answers (s.m_locks (thread sth)) s).deleteLockRequests thread
        sth threadsReady threadsWaiting, .ok)

end

end TinyClr.Locks
