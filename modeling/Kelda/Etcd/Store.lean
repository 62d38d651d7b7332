import Kelda.DB.Rows

/-! The key value store of the minions, as the client of the etcd cluster shows
it. An operation takes effect at once; failures of the connection are a matter
of the callers. -/
namespace Kelda.Etcd

/-- An error that the server answers with, by its code, or any other error. -/
inductive Error where
  | client (code : Nat)
  | other (text : String)
deriving DecidableEq

def errorCodeKeyNotFound : Nat := 100

def errorCodeTestFailed : Nat := 101

def errorCodeNodeExist : Nat := 105

/-- A value, and the number of seconds after which it expires. A value with
none stays. -/
structure Node where
  value : String
  ttl : Nat
deriving DecidableEq

abbrev Store := StringMap Node

inductive PrevExistType where
  | prevIgnore
  | prevExist
  | prevNoExist
deriving DecidableEq

/-- The conditions of a write. An empty previous value is not compared. -/
structure SetOptions where
  prevValue : String := ""
  prevExist : PrevExistType := .prevIgnore
  ttl : Nat := 0

namespace Store

/-- The write of the client library. -/
def kapiSet (store : Store) (path value : String) (opts : SetOptions) : Except Error Store :=
  match store.lookup path with
  | none =>
    if opts.prevExist = .prevExist ∨ opts.prevValue ≠ "" then .error (.client errorCodeKeyNotFound)
    else .ok (store.insert path ⟨value, opts.ttl⟩)
  | some node =>
    if opts.prevExist = .prevNoExist then .error (.client errorCodeNodeExist)
    else if opts.prevValue ≠ "" ∧ node.value ≠ opts.prevValue then
      .error (.client errorCodeTestFailed)
    else .ok (store.insert path ⟨value, opts.ttl⟩)

def get (store : Store) (path : String) : Except Error String :=
  match store.lookup path with
  | none => .error (.client errorCodeKeyNotFound)
  | some node => .ok node.value

def create (store : Store) (path value : String) (ttl : Nat) : Except Error Store :=
  store.kapiSet path value { prevExist := .prevNoExist, ttl }

def set (store : Store) (path value : String) (ttl : Nat) : Except Error Store :=
  store.kapiSet path value { ttl }

def refresh (store : Store) (path value : String) (ttl : Nat) : Except Error Store :=
  store.kapiSet path value { prevValue := value, prevExist := .prevExist, ttl }

variable {store store' : Store} {path value : String} {ttl : Nat}

theorem create_eq_ok (h : store.create path value ttl = .ok store') :
    store.lookup path = none ∧ store' = store.insert path ⟨value, ttl⟩ := by
  rw [create, kapiSet] at h
  split at h
  · next hAbsent =>
      rw [if_neg (by simp)] at h
      exact ⟨hAbsent, (Except.ok.inj h).symm⟩
  · rw [if_pos rfl] at h
    cases h

/-- A write without conditions never fails. -/
theorem set_eq (store : Store) (path value : String) (ttl : Nat) :
    store.set path value ttl = .ok (store.insert path ⟨value, ttl⟩) := by
  rw [set, kapiSet]
  split
  · rw [if_neg (by simp)]
  · rw [if_neg (by simp), if_neg (by simp)]

theorem get_insert (store : Store) (path value : String) (ttl : Nat) :
    get (store.insert path ⟨value, ttl⟩) path = .ok value := by
  rw [get, Finmap.lookup_insert]

/-- A value that is refreshed is the caller's already. -/
theorem refresh_eq_ok (hValue : value ≠ "") (h : store.refresh path value ttl = .ok store') :
    (store.lookup path).map Node.value = some value ∧
      store' = store.insert path ⟨value, ttl⟩ := by
  rw [refresh, kapiSet] at h
  split at h
  · rw [if_pos (Or.inl rfl)] at h
    cases h
  · next node hNode =>
      rw [if_neg (by simp)] at h
      split_ifs at h with hOther
      have hSame : node.value = value := by
        by_contra hne
        exact hOther ⟨hValue, hne⟩
      rw [hNode, Option.map_some, hSame]
      exact ⟨rfl, (Except.ok.inj h).symm⟩

end Store

end Kelda.Etcd
