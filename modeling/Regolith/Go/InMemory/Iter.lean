import Regolith.Go.InMemory

-- An iterator in memory does what one does that has its batch to itself. It writes to no array
-- that is there: a batch, or a value, is put in a new one.
namespace Regolith.Go.InMemory

open Ffi Memory Slice

section Arrays

variable {h h' h'' : Mem} {s : Slice}

-- Whatever was there still is.
def Grows (h h' : Mem) : Prop := ∀ t : Slice, t.Fits h → t.Fits h' ∧ t.read h' = t.read h

theorem Grows.refl (h : Mem) : Grows h h := fun _ ht => ⟨ht, rfl⟩

-- A slice of an array that was not there.
structure New (h h' : Mem) (s : Slice) : Prop where
  fits : s.Fits h'
  whole : s.len = s.cap
  apart : ∀ t : Slice, t.Fits h → t.Apart s

theorem nil_new (h : Mem) : New h h .nil := ⟨nil_fits, rfl, fun _ _ => .inr (.inl rfl)⟩

theorem make_new (h : Mem) (data : Bytes) :
    Grows h (h.make data 0).2 ∧ New h (h.make data 0).2 (h.make data 0).1 := by
  have hmoves := make_moves (s := .nil) h data 0
  refine ⟨fun t ht => ?_, make_fits .., (Nat.zero_max _).symm, fun t ht => ?_⟩
  · obtain ⟨ht', hread, -⟩ := hmoves t ht (.inl rfl)
    exact ⟨ht', hread⟩
  · exact (hmoves t ht (.inl rfl)).2.2.symm

end Arrays

section Copies

-- What a copy into Go memory comes to, and what it would be without the memory.
theorem GoBytes_copies (h : Mem) (bytes : Bytes) (n : Int32) :
    Grows h (GoBytes h bytes n).2 ∧
      Go.GoBytes bytes n = (GoBytes h bytes n).1.map (·.read (GoBytes h bytes n).2) ∧
      ∀ s, (GoBytes h bytes n).1 = .ok s → New h (GoBytes h bytes n).2 s := by
  unfold GoBytes Go.GoBytes
  split_ifs with hneg
  · exact ⟨.refl h, rfl, fun s hok => by cases hok⟩
  · obtain ⟨hgrows, hnew⟩ := make_new h (bytes.take n.toInt.toNat)
    refine ⟨hgrows, ?_, fun s hok => ?_⟩
    · simp [Except.map, make_read]
    · rw [← Except.ok.inj hok]
      exact hnew

-- The same of a frame, with the error that came in its place.
structure Copied (h : Mem) (r : Except Crash (Slice × Option GoError) × Mem)
    (p : Except Crash (Bytes × Option GoError)) : Prop where
  grows : Grows h r.2
  result : p = r.1.map fun (s, err) => (s.read r.2, err)
  new : ∀ {s err}, r.1 = .ok (s, err) → New h r.2 s

theorem copied_nil (h : Mem) (err : Option GoError) :
    Copied h (.ok (.nil, err), h) (.ok ([], err)) := by
  refine ⟨.refl h, by simp [Except.map, Slice.read, Slice.nil], fun hok => ?_⟩
  obtain ⟨rfl, -⟩ := Prod.mk.inj (Except.ok.inj hok)
  exact nil_new h

theorem takeBuf_copied (h : Mem) (bytes : Bytes) (status : Status) (detail : Option String) :
    Copied h (takeBuf h bytes status detail) (Go.takeBuf bytes status detail) := by
  unfold takeBuf Go.takeBuf
  cases statusToErr status detail with
  | some err => exact copied_nil h _
  | none =>
    simp only
    split_ifs with hempty
    · exact copied_nil h _
    · have hcopies := GoBytes_copies h bytes (.ofNat bytes.length)
      generalize GoBytes h bytes (.ofNat bytes.length) = r at hcopies ⊢
      obtain ⟨hgrows, hresult, hnew⟩ := hcopies
      rw [hresult]
      obtain ⟨crash | s, mem⟩ := r
      · exact ⟨hgrows, rfl, fun hok => by cases hok⟩
      · refine ⟨hgrows, rfl, fun hok => ?_⟩
        obtain ⟨rfl, -⟩ := Prod.mk.inj (Except.ok.inj hok)
        exact hnew s rfl

end Copies

namespace Iter

variable {σ : Type} [EntrySource σ] {h : Mem} {it : Iter σ} {buf : Bytes}

omit [EntrySource σ] in
-- The iterator outside of memory, with a batch of its own.
def holding (it : Iter σ) (buf : Bytes) : Go.Iter σ :=
  ⟨it.db_closed, it.i, it.keysOnly, buf, it.ents, it.pos, it.done⟩

-- The two do the same, and where one has a new batch so has the other.
def Mirrors {α : Type} (h : Mem) (it : Iter σ) (buf : Bytes) (m : α × Iter σ × Mem)
    (p : α × Go.Iter σ) : Prop :=
  Grows h m.2.2 ∧ ∃ buf', p = (m.1, m.2.1.holding buf') ∧
    (m.2.1.buf = it.buf ∧ buf' = buf ∨
      New h m.2.2 m.2.1.buf ∧ m.2.1.buf.read m.2.2 = buf')

theorem refill_mirrors (h : Mem) (it : Iter σ) (buf : Bytes) :
    Mirrors h it buf (it.refill h) (it.holding buf).refill := by
  have hi : (it.holding buf).i = it.i := rfl
  unfold refill Go.Iter.refill
  rw [hi]
  rcases regolith_iter_next_batch it.i batchEntries .writable .writable .writable .writable with
    ⟨reply, i⟩
  simp only [holding]
  have hcopied := takeBuf_copied h (reply.out.getD ⟨[], 0⟩).frame reply.status reply.err
  generalize takeBuf h (reply.out.getD ⟨[], 0⟩).frame reply.status reply.err = r at hcopied ⊢
  obtain ⟨hgrows, hresult, hnew⟩ := hcopied
  obtain ⟨result, mem⟩ := r
  simp only at hgrows hresult hnew ⊢
  rw [hresult]
  rcases result with crash | ⟨frame, err⟩
  · exact ⟨hgrows, buf, rfl, .inl ⟨rfl, rfl⟩⟩
  · cases err with
    | some err => exact ⟨hgrows, buf, rfl, .inl ⟨rfl, rfl⟩⟩
    | none =>
      have hframe := hnew rfl
      simp only [Except.map, hframe.fits.length_read]
      split_ifs with hcount
      · exact ⟨hgrows, buf, rfl, .inl ⟨rfl, rfl⟩⟩
      · cases parse (frame.read mem) frame.len 0 [] with
        | error crash => exact ⟨hgrows, _, rfl, .inr ⟨hframe, rfl⟩⟩
        | ok ents => exact ⟨hgrows, _, rfl, .inr ⟨hframe, rfl⟩⟩

omit [EntrySource σ] in
theorem mirrors_of_same {α : Type} (result : α) (it' : Iter σ) (hbuf : it'.buf = it.buf) :
    Mirrors h it buf (result, it', h) (result, it'.holding buf) :=
  ⟨.refl h, buf, rfl, .inl ⟨hbuf, rfl⟩⟩

theorem Next_mirrors (h : Mem) (it : Iter σ) (buf : Bytes) :
    Mirrors h it buf (it.Next h) (it.holding buf).Next := by
  have hnext : (it.holding buf).Next =
      if it.db_closed then (.ok (false, some (.bare .ErrClosed)), it.holding buf)
      else if it.pos + 1 < it.ents.length then
        (.ok (true, none), { it with pos := it.pos + 1 }.holding buf)
      else if it.done then (.ok (false, none), { it with pos := it.ents.length }.holding buf)
      else (it.holding buf).refill := rfl
  rw [hnext, Next]
  split_ifs with hclosed hmore hdone
  · exact mirrors_of_same _ it rfl
  · exact mirrors_of_same _ _ rfl
  · exact mirrors_of_same _ _ rfl
  · exact refill_mirrors h it buf

theorem Seek_mirrors (h : Mem) (it : Iter σ) (buf target : Bytes) :
    Mirrors h it buf (it.Seek h target) ((it.holding buf).Seek target) := by
  have hi : (it.holding buf).i = it.i := rfl
  have hdb : (it.holding buf).db_closed = it.db_closed := rfl
  unfold Seek Go.Iter.Seek invalidate Go.Iter.invalidate
  rw [hdb]
  split_ifs with hclosed
  · exact mirrors_of_same _ it rfl
  · simp only [hi]
    rcases regolith_iter_seek it.i (bytePtr target) .writable .writable with ⟨reply, i⟩
    simp only [holding]
    cases statusToErr reply.status reply.err with
    | some err => exact mirrors_of_same _ { it with i := i, ents := [], pos := 0, done := false } rfl
    | none =>
      simp only
      split_ifs with hfound
      · exact mirrors_of_same _ { it with i := i, ents := [], pos := 0, done := true } rfl
      · exact refill_mirrors h _ buf

omit [EntrySource σ] in
-- While nobody has written to its batch, the two have the same key.
theorem Key_reads (hfits : it.buf.Fits h) (hwhole : it.buf.len = it.buf.cap)
    (hread : it.buf.read h = buf) :
    it.Key.map (·.map (·.read h)) = (it.holding buf).Key := by
  subst hread
  unfold Key Go.Iter.Key
  simp only [holding]
  cases it.ents[it.pos]? with
  | none => rfl
  | some e =>
    simp only [slice, Go.slice, hfits.length_read, hwhole]
    split_ifs with hbounds
    · obtain ⟨hlo, hle, hhi⟩ := hbounds
      simp only [Except.map, Option.map_some]
      rw [read_window (by omega)]
    · rfl

omit [EntrySource σ] in
-- It is a part of the batch.
theorem Key_within {s : Slice} (hfits : it.buf.Fits h) (hkey : it.Key = .ok (some s)) :
    s.Fits h ∧ s.array = it.buf.array ∧ s.cap ≤ it.buf.cap ∧
      ∀ t : Slice, t.Apart it.buf → t.Apart s := by
  unfold Key at hkey
  cases hents : it.ents[it.pos]? with
  | none => simp [hents] at hkey
  | some e =>
    simp only [hents, slice] at hkey
    split_ifs at hkey with hbounds
    · obtain ⟨hlo, hle, hhi⟩ := hbounds
      obtain rfl := Option.some.inj (Except.ok.inj hkey)
      exact ⟨hfits.window (by omega) (by omega), rfl, Nat.sub_le _ _, fun t ht => ht.window _ _⟩
    · cases hkey

-- What a value comes to.
structure Valued (h : Mem) (r : Except Crash (Option Slice × Option GoError) × Mem)
    (p : Except Crash (Option Bytes × Option GoError)) : Prop where
  grows : Grows h r.2
  result : p = r.1.map fun (value, err) => (value.map (·.read r.2), err)
  new : ∀ {s err}, r.1 = .ok (some s, err) → New h r.2 s

theorem valued_none (h : Mem) (err : Option GoError) : Valued h (.ok (none, err), h) (.ok (none, err)) :=
  ⟨.refl h, rfl, fun hok => by cases hok⟩

omit [EntrySource σ] in
theorem Value_valued (h : Mem) (it : Iter σ) (buf : Bytes) :
    Valued h (it.Value h) (it.holding buf).Value := by
  have hi : (it.holding buf).i = it.i := rfl
  have hkeys : (it.holding buf).keysOnly = it.keysOnly := rfl
  have hents : (it.holding buf).ents = it.ents := rfl
  have hpos : (it.holding buf).pos = it.pos := rfl
  unfold Value Go.Iter.Value
  rw [hi, hkeys, hents, hpos]
  split_ifs with hno
  · exact valued_none h none
  · rcases regolith_iter_batch_value it.i it.pos .writable .writable .writable with
      ⟨status, detail, out⟩
    simp only
    cases statusToErr status detail with
    | some err => exact valued_none h (some err)
    | none =>
      simp only
      split_ifs with hempty
      · exact valued_none h none
      · generalize (out.getD none).getD [] = val
        have hcopies := GoBytes_copies h val (.ofNat val.length)
        generalize GoBytes h val (.ofNat val.length) = r at hcopies ⊢
        obtain ⟨hgrows, hresult, hnew⟩ := hcopies
        rw [hresult]
        obtain ⟨crash | s, mem⟩ := r
        · exact ⟨hgrows, rfl, fun hok => by cases hok⟩
        · refine ⟨hgrows, rfl, fun hok => ?_⟩
          obtain ⟨hs, -⟩ := Prod.mk.inj (Except.ok.inj hok)
          rw [← Option.some.inj hs]
          exact hnew s rfl

-- What a call does in memory, and of the iterator that has a batch to itself.
structure Answers (h : Mem) (it : Iter σ) (buf : Bytes) (call : CursorCall) (called : Called σ)
    (p : Outcome × Go.Iter σ) : Prop where
  grows : Grows h called.mem
  outcome : (call = .Key → it.buf.read h = buf) → called.outcome = p.1
  twin : ∃ buf', p.2 = called.it.holding buf' ∧
    (called.it.buf = it.buf ∧ buf' = buf ∨
      New h called.mem called.it.buf ∧ called.it.buf.read called.mem = buf')
  handed : ∀ s ∈ called.handed, s.Fits called.mem ∧
    ∀ t : Slice, t.Fits h → t.Apart it.buf → t.Apart s

omit [EntrySource σ] in
theorem Answers.batch {call : CursorCall} {called : Called σ} {p : Outcome × Go.Iter σ}
    (ha : Answers h it buf call called p) (hfits : it.buf.Fits h)
    (hwhole : it.buf.len = it.buf.cap) :
    (called.it.buf.Fits called.mem ∧ called.it.buf.len = called.it.buf.cap) ∧
      ∀ t : Slice, t.Fits h → t.Apart it.buf → t.Apart called.it.buf := by
  obtain ⟨buf', -, ⟨hsame, -⟩ | ⟨hnew, -⟩⟩ := ha.twin
  · rw [hsame]
    exact ⟨⟨(ha.grows it.buf hfits).1, hwhole⟩, fun t _ hapart => hapart⟩
  · exact ⟨⟨hnew.fits, hnew.whole⟩, fun t ht _ => hnew.apart t ht⟩

omit [EntrySource σ] in
theorem Mirrors.answers {m : Except Crash (Bool × Option GoError) × Iter σ × Mem}
    {p : Except Crash (Bool × Option GoError) × Go.Iter σ} {call : CursorCall}
    (hm : Mirrors h it buf m p) :
    Answers h it buf call ⟨.moved m.1, none, m.2.1, m.2.2⟩ (.moved p.1, p.2) := by
  obtain ⟨hgrows, buf', rfl, hbuf⟩ := hm
  exact ⟨hgrows, fun _ => rfl, ⟨buf', rfl, hbuf⟩, fun s hs => by simp at hs⟩

theorem call_answers (hfits : it.buf.Fits h) (hwhole : it.buf.len = it.buf.cap) (buf : Bytes)
    (call : CursorCall) :
    Answers h it buf call (it.call h call) (call.run (it.holding buf)) := by
  cases call with
  | Next => exact (Next_mirrors h it buf).answers
  | Seek target => exact (Seek_mirrors h it buf target).answers
  | Reset =>
    exact ⟨.refl h, fun _ => rfl, ⟨buf, rfl, .inl ⟨rfl, rfl⟩⟩, fun s hs => by simp [Iter.call] at hs⟩
  | Key =>
    refine ⟨.refl h, fun hread => ?_, ⟨buf, rfl, .inl ⟨rfl, rfl⟩⟩, fun s hs => ?_⟩
    · exact congrArg Outcome.key (Key_reads hfits hwhole (hread rfl))
    · cases hkey : it.Key with
      | error crash => simp [Iter.call, hkey, Except.toOption] at hs
      | ok key =>
        simp only [Iter.call, hkey, Except.toOption, Option.join_some, Option.mem_def] at hs
        subst hs
        obtain ⟨hs, -, -, hapart⟩ := Key_within hfits hkey
        exact ⟨hs, fun t _ => hapart t⟩
  | Value =>
    obtain ⟨hgrows, hresult, hnew⟩ := Value_valued h it buf
    refine ⟨hgrows, fun _ => congrArg Outcome.value hresult.symm, ⟨buf, rfl, .inl ⟨rfl, rfl⟩⟩,
      fun s hs => ?_⟩
    cases hvalue : (it.Value h).1 with
    | error crash => simp [Iter.call, hvalue, Except.toOption] at hs
    | ok value =>
      obtain ⟨value, err⟩ := value
      simp only [Iter.call, hvalue, Except.toOption, Option.bind_some, Option.mem_def] at hs
      subst hs
      exact ⟨(hnew hvalue).fits, fun t ht _ => (hnew hvalue).apart t ht⟩

end Iter

end Regolith.Go.InMemory
