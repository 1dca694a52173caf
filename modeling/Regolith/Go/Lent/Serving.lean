import Regolith.Ffi.Abi.Reports
import Regolith.Go.Iter.Parse
import Regolith.Go.Lent

-- What the entry points hand to Go: a status with its detail, and what they left in the
-- out-params.
namespace Regolith.Go.Lent

open Ffi Lending Program

-- What is behind a handle that is not nil, and the options in C memory.
structure Found where
  inner : TxnInner Unit
  it : { it : Abi.Iter // it.Reached }
  opts : RegolithIterOptions

def FfiCall.entry (found : Found) : FfiCall → Option Abi.Call
  | .regolith_db_open_with_options path opts =>
      some (.regolith_db_open_with_options path (some opts) .writable)
  | .regolith_db_get_borrowed db key =>
      some (.db (db.map fun _ => ()) (.get_borrowed key .writable .writable .writable))
  | .regolith_db_has db key => some (.db (db.map fun _ => ()) (.has key .writable))
  | .regolith_db_set db key value => some (.db (db.map fun _ => ()) (.set key value))
  | .regolith_db_delete db key => some (.db (db.map fun _ => ()) (.delete key))
  | .regolith_db_write db ops => some (.db (db.map fun _ => ()) (.write ops))
  | .regolith_db_drop_all db => some (.db (db.map fun _ => ()) .drop_all)
  | .regolith_db_close db => some (.db (db.map fun _ => ()) .close)
  | .regolith_db_iter db _ => some (.db (db.map fun _ => ()) (.iter (some found.opts) .writable))
  | .regolith_db_txn db readonly => some (.db (db.map fun _ => ()) (.txn readonly .writable))
  | .regolith_txn_get_borrowed t key =>
      some (.txn (t.map fun _ => found.inner) (.get_borrowed key .writable .writable .writable))
  | .regolith_txn_has t key => some (.txn (t.map fun _ => found.inner) (.has key .writable))
  | .regolith_txn_set t key value => some (.txn (t.map fun _ => found.inner) (.set key value))
  | .regolith_txn_delete t key => some (.txn (t.map fun _ => found.inner) (.delete key))
  | .regolith_txn_iter t _ =>
    some (.txn (t.map fun _ => found.inner) (.iter (some found.opts) .writable))
  | .regolith_txn_commit t => some (.txn (t.map fun _ => found.inner) .commit)
  | .regolith_txn_free t => some (.txn (t.map fun _ => found.inner) .free)
  | .regolith_iter_next_batch i max_entries =>
      some (.iter (i.map fun _ => found.it) (.next_batch max_entries .writable .writable .writable))
  | .regolith_iter_seek i key => some (.iter (i.map fun _ => found.it) (.seek key .writable))
  | .regolith_iter_reset i => some (.iter (i.map fun _ => found.it) .reset)
  | .regolith_iter_batch_value i idx =>
      some (.iter (i.map fun _ => found.it) (.batch_value idx .writable .writable))
  | .regolith_iter_close i => some (.iter (i.map fun _ => found.it) .close)
  | .calloc | .CBytes _ => none

-- What a write leaves in the out-params, which Go has set to nil or zero. A pointer to no
-- bytes is not told apart from nil: it is never followed and never freed.
def Out.Holds (ws : List Abi.Write) : (out : Out) → out.Data → Prop
  | .nothing, _ => True
  | .flag, (found : UInt8) =>
      match ws with
      | [.flag b] => found = if b then 1 else 0
      | _ => found = 0
  | .handle, (ptr : Ptr) => ptr.isSome ↔ ws ≠ []
  | .value, (r : ValueOut) =>
      match ws with
      | [.ptr _, .len length, .value_handle slice] =>
          r.valLen = length ∧ (r.handle.isSome ↔ slice.isSome) ∧
            (r.handle.isSome → r.val = r.handle)
      | _ => r = ⟨none, 0, none⟩
  | .batch, (r : BatchOut) =>
      match ws with
      | [.count count, .ptr _, .len length] =>
          r.count = count ∧ r.outLen = length ∧ (r.out.isSome ↔ length ≠ 0)
      | _ => r = ⟨none, 0, 0⟩
  | .lent, (bytes : Bytes) =>
      match ws with
      | [.ptr slice, .len _] => bytes = slice.getD []
      | _ => bytes = []

def Form.Holds (ws : List Abi.Write) : (form : Form) → form.Reply → Prop
  | .reports out, (r : Handed out.Data) => out.Holds ws r.out
  | .silent, _ | .allocates _, _ => True

-- The bytes at the pointer that was written, if any.
def lent : List Abi.Write → Bytes
  | [] => []
  | .ptr bytes :: _ => bytes.getD []
  | _ :: ws => lent ws

-- A status, the message of the detail that comes with it, and what was written before. A code
-- that the header does not have may come with anything.
inductive Report (c : FfiCall) : Status → Option String → List Abi.Write → Prop where
  | returned (found : Found) {entry τ outcome} (hentry : c.entry found = some entry)
      (run : Yields entry.body τ outcome) :
      Report c (guard .writable outcome).status (guard .writable outcome).err (Abi.written τ)
  | unknown {status message ws} (h : status ∉ codes) : Report c status message ws

-- The last report that a method got, where its detail is, and where what it lent.
structure Last where
  status : Status
  cerr : Ptr
  message : Option String
  ptr : Ptr
  given : Bytes

def Out.ptr : (out : Out) → out.Data → Ptr
  | .value, (r : ValueOut) => r.val
  | .batch, (r : BatchOut) => r.out
  | _, _ => none

def Form.told : (form : Form) → form.Reply → Option (Status × Ptr × Ptr)
  | .reports out, (r : Handed out.Data) => some (r.status, r.cerr, out.ptr r.out)
  | .silent, _ | .allocates _, _ => none

-- What is read is as the call that handed it over has left it.
def Serves (last : Option Last) : Exchange signature.interface → Option Last → Prop
  | ⟨.call c, r⟩, last' =>
      match c.form.told r with
      | none => last' = last
      | some (status, cerr, ptr) => ∃ message ws, Report c status message ws ∧
          (cerr.isSome ↔ message.isSome) ∧ (status ∈ codes → c.form.Holds ws r) ∧
          last' = some ⟨status, cerr, message, ptr, lent ws⟩
  | ⟨.read (.detail id), (text : String)⟩, last' =>
      last' = last ∧ ∀ l ∈ last, l.cerr = some id → l.message = some text
  | ⟨.read (.value id), (bytes : Bytes)⟩, last'
  | ⟨.read (.frame id _), (bytes : Bytes)⟩, last' =>
      last' = last ∧ ∀ l ∈ last, l.ptr = some id → l.given = bytes
  | ⟨.read _, _⟩, last' | ⟨.release _, _⟩, last' => last' = last

abbrev serving : Spec signature.interface (Option Last) := following Serves

section Report

variable {c : FfiCall} {status : Status} {cerr ptr : Ptr} {message : Option String}
  {ws : List Abi.Write}

theorem Report.message_of (h : Report c status message ws) (hcode : status ∈ codes)
    (hbare : ¬HasDetail status) : message = none := by
  cases h with
  | returned _ _ run =>
    have hdetail := (Abi.Call.promised _ run .writable).detail rfl
    exact Option.not_isSome_iff_eq_none.mp fun h => hbare (hdetail.mp h)
  | unknown h => exact absurd hcode h

-- What the entry points write, by what Go has of it.
def Form.Shaped (shape : Abi.Shape) : Form → Prop
  | .reports .flag => shape = .flag
  | .reports .value => shape = .borrowed
  | .reports .batch => shape = .batch
  | .reports .lent => shape = .lent
  | _ => True

theorem FfiCall.shaped {found : Found} {entry : Abi.Call} (h : c.entry found = some entry) :
    c.form.Shaped entry.shape := by
  cases c <;> cases h <;> first | rfl | trivial

-- What Go has, where the status is OK, of what the call lent.
def Out.Lends (last : Last) : (out : Out) → out.Data → Prop
  | .flag, _ => last.given = []
  | .value, (r : ValueOut) =>
      r.val = last.ptr ∧ r.valLen = last.given.length ∧ (last.given ≠ [] → r.val.isSome)
  | .batch, (r : BatchOut) =>
      (r.out = last.ptr ∧ r.outLen = last.given.length ∧ (last.given ≠ [] → r.out.isSome)) ∧
        ∃ keys, last.given = PrefixCode.pack key_record keys ∧ r.count = keys.length
  | .lent, (bytes : Bytes) => bytes = last.given
  | .nothing, _ | .handle, _ => True

def Form.Lends (last : Last) : (form : Form) → form.Reply → Prop
  | .reports out, (r : Handed out.Data) => out.Lends last r.out
  | .silent, _ | .allocates _, _ => True

theorem Form.lends {shape : Abi.Shape} (hws : shape.Holds ws) :
    {form : Form} → {r : form.Reply} → form.Shaped shape → form.Holds ws r →
      form.told r = some (status, cerr, ptr) → form.Lends ⟨status, cerr, message, ptr, lent ws⟩ r
  | .silent, _, _, _, _ | .allocates _, _, _, _, _ => trivial
  | .reports out, r, hshape, hholds, htold => by
    cases htold
    cases out with
    | nothing | handle => trivial
    | flag =>
      obtain rfl := hshape
      obtain ⟨value, rfl⟩ := hws
      rfl
    | lent =>
      obtain rfl := hshape
      obtain ⟨value, rfl⟩ := hws
      exact hholds
    | value =>
      obtain rfl := hshape
      obtain ⟨slice, -, rfl⟩ := hws
      obtain ⟨hlen, hhandle, hval⟩ := hholds
      refine ⟨rfl, hlen, fun hgiven => ?_⟩
      cases slice with
      | none => exact absurd rfl hgiven
      | some bytes =>
        have hsome := hhandle.mpr rfl
        exact (hval hsome).symm ▸ hsome
    | batch =>
      obtain rfl := hshape
      obtain ⟨keys, -, rfl⟩ := hws
      obtain ⟨hcount, hlen, hout⟩ := hholds
      refine ⟨⟨rfl, hlen, fun hgiven => hout.mpr ?_⟩, keys, rfl, hcount⟩
      exact fun h => hgiven (List.length_eq_zero_iff.mp h)

theorem Report.lends {r : c.Reply} (h : Report c status message ws) (hstatus : status = OK)
    (hholds : status ∈ codes → c.form.Holds ws r)
    (htold : c.form.told r = some (status, cerr, ptr)) :
    c.form.Lends ⟨status, cerr, message, ptr, lent ws⟩ r := by
  have hcode : status ∈ codes := by simp [hstatus, codes]
  cases h with
  | returned _ hentry run =>
    have hws := (Abi.Call.promised _ run .writable).written hstatus
    exact Form.lends hws (FfiCall.shaped hentry) (hholds hcode) htold
  | unknown h => exact absurd hcode h

end Report

end Regolith.Go.Lent
