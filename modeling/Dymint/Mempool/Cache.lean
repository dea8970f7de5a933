import Dymint.Types.Block

/-!
# The cache of seen transactions

`LRUTxCache` keeps the keys of transactions in a linked list, the least recently
pushed first, and a map from the keys to the elements of that list.  An element
is a pointer; here it is a number that is never used again.
-/

namespace Dymint.Mempool

open Dymint.Types

abbrev TxKey := FixedBytes 32

structure LRUTxCache where
  size : ℤ
  cacheMap : TxKey → Option ℕ
  list : List (ℕ × TxKey)
  next : ℕ

namespace LRUTxCache

def new (cacheSize : ℤ) : LRUTxCache := ⟨cacheSize, fun _ => none, [], 0⟩

def reset (cache : LRUTxCache) : LRUTxCache :=
  { cache with
    cacheMap := fun _ => none
    list := [] }

def moveToBack (list : List (ℕ × TxKey)) (element : ℕ) : List (ℕ × TxKey) :=
  list.filter (fun entry => entry.1 ≠ element) ++ list.filter fun entry => entry.1 = element

/-- Make room for one more key. -/
def dropFront (cache : LRUTxCache) : LRUTxCache :=
  if (cache.list.length : ℤ) ≥ cache.size then
    match cache.list with
    | [] => cache
    | front :: rest =>
      { cache with
        cacheMap := Function.update cache.cacheMap front.2 none
        list := rest }
  else cache

def push (cache : LRUTxCache) (key : TxKey) : LRUTxCache × Bool :=
  match cache.cacheMap key with
  | some moved => ({ cache with list := moveToBack cache.list moved }, false)
  | none =>
    let cache := cache.dropFront
    ({ cache with
        list := cache.list ++ [(cache.next, key)]
        cacheMap := Function.update cache.cacheMap key (some cache.next)
        next := cache.next + 1 }, true)

def remove (cache : LRUTxCache) (key : TxKey) : LRUTxCache :=
  let list :=
    match cache.cacheMap key with
    | none => cache.list
    | some element => cache.list.filter fun entry => entry.1 ≠ element
  { cache with
    cacheMap := Function.update cache.cacheMap key none
    list := list }

def has (cache : LRUTxCache) (key : TxKey) : Bool := (cache.cacheMap key).isSome

end LRUTxCache

/-- The cache of a mempool; without a positive size it is `NopTxCache`. -/
inductive TxCache where
  | nop
  | lru (cache : LRUTxCache)

namespace TxCache

def ofSize (cacheSize : ℤ) : TxCache :=
  if cacheSize > 0 then .lru (.new cacheSize) else .nop

def reset : TxCache → TxCache
  | .nop => .nop
  | .lru cache => .lru cache.reset

def push : TxCache → TxKey → TxCache × Bool
  | .nop, _ => (.nop, true)
  | .lru cache, key => (.lru (cache.push key).1, (cache.push key).2)

def remove : TxCache → TxKey → TxCache
  | .nop, _ => .nop
  | .lru cache, key => .lru (cache.remove key)

def has : TxCache → TxKey → Bool
  | .nop, _ => false
  | .lru cache, key => cache.has key

end TxCache

end Dymint.Mempool
