import MathMarkup.History.Query

/-!
# Stores of records

What a store of records can do, whatever it keeps them in. A store is a state together with
operations on it; an operation that fails leaves the state as it was.
-/

namespace MathMarkup.History

/-- Something with a new identifier leaves the identifiers distinct. -/
theorem distinct_cons {α : Type} {id : α → Text} {a : α} {as : List α} (hd : (as.map id).Nodup)
    (ha : ¬(as.map id).contains (id a)) : ((a :: as).map id).Nodup := by
  rw [List.contains_iff_mem] at ha
  rw [List.map_cons, List.nodup_cons]
  exact ⟨ha, hd⟩

/-- The operations of a store whose state is `σ`. -/
structure Storage (σ : Type) where
  /-- The name of the kind of store. -/
  backend : Text
  /-- Keeps a record under its identifier, which must be new. -/
  store : σ → Record → Except Fault σ
  /-- The record with an identifier. -/
  get : σ → Text → Except Fault Record
  /-- The page of wanted records that a query asks for, in its order. -/
  query : σ → Query → Except Fault (List Record)
  /-- The number of wanted records, whatever the page. -/
  count : σ → Query → Except Fault Nat
  /-- Removes the wanted records, whatever the page, and tells how many there were. -/
  delete : σ → Query → Except Fault (Nat × σ)
  /-- Whether the store can be reached. -/
  ping : σ → Except Fault Unit
  /-- Gives the store up. -/
  close : σ → σ

namespace Storage

variable {σ τ : Type}

/-- A store whose operations run only after a check of their names. -/
def guarded (check : Text → Except Fault Unit) (st : Storage σ) : Storage σ where
  backend := st.backend
  store s r := check "store" >>= fun _ => st.store s r
  get s id := check "get" >>= fun _ => st.get s id
  query s q := check "query" >>= fun _ => st.query s q
  count s q := check "count" >>= fun _ => st.count s q
  delete s q := check "delete" >>= fun _ => st.delete s q
  ping s := check "ping" >>= fun _ => st.ping s
  close := st.close

/-- A store that counts the records handed to it and changes each of them by its number before it is
kept. -/
def numbered (change : Nat → Record → Record) (st : Storage σ) : Storage (Nat × σ) where
  backend := st.backend
  store s r := (st.store s.2 (change (s.1 + 1) r)).map fun s' => (s.1 + 1, s')
  get s := st.get s.2
  query s := st.query s.2
  count s := st.count s.2
  delete s q := (st.delete s.2 q).map fun (n, s') => (n, (s.1, s'))
  ping s := st.ping s.2
  close s := (s.1, st.close s.2)

end Storage

end MathMarkup.History
