import Mathlib.Data.Fintype.Card
import Mathlib.Tactic.Lift
import Regolith.Ffi.Iter.Framing
import Regolith.Go.Iter

-- The loop of `refill` over a key frame, and the keys that its entries cut out.
namespace Regolith.Go

open Ffi

-- What `Iter.Key` cuts out of the buffer.
def cut (buf : Bytes) (e : entry) : Except Crash Bytes :=
  slice buf e.kOff (e.kOff + e.kLen)

-- The entry of a key that is framed at an offset.
def located (at_ : Nat) (key : Bytes) : entry :=
  ⟨.ofInt (at_ + 4), .ofNat key.length⟩

def offsets : Nat → List Item → List entry
  | _, [] => []
  | at_, x :: xs => located at_ x.key :: offsets (at_ + 4 + x.key.length) xs

@[simp] theorem length_offsets (at_ : Nat) (xs : List Item) :
    (offsets at_ xs).length = xs.length := by
  induction xs generalizing at_ with
  | nil => rfl
  | cons x xs ih => simp [offsets, ih]

theorem GoBytes_of_lt {bytes : Bytes} (h : bytes.length < 2 ^ 31) :
    GoBytes bytes (.ofNat bytes.length) = .ok bytes := by
  simp [GoBytes, Int32.toInt_ofNat_of_lt h]

-- The length narrowed to a `C.int`: a part of the memory is copied, or it crashes.
theorem GoBytes_narrowed (bytes : Bytes) :
    GoBytes bytes (.ofNat bytes.length) =
      if bytes.length % 2 ^ 32 < 2 ^ 31 then .ok (bytes.take (bytes.length % 2 ^ 32))
      else .error (.panic "gobytes: length out of range") := by
  have hnarrow : (Int32.ofNat bytes.length).toInt = (bytes.length : Int).bmod (2 ^ 32) :=
    Int32.toInt_ofNat'
  rw [Int.bmod_def] at hnarrow
  split_ifs at hnarrow ⊢ with hsign hshort hshort
  · rw [GoBytes, if_neg (by omega), hnarrow]
    rfl
  · omega
  · omega
  · rw [GoBytes, if_pos (by omega)]

-- What `C.GoBytes` hands back is a front of the memory that an `int` can measure.
theorem GoBytes_ok {bytes buf : Bytes} (h : GoBytes bytes (.ofNat bytes.length) = .ok buf) :
    buf <+: bytes ∧ buf.length < 2 ^ 31 := by
  have hlt := (Int32.ofNat bytes.length).toInt_lt
  simp only [GoBytes] at h
  split at h
  · simp at h
  · obtain rfl := Except.ok.inj h
    refine ⟨List.take_prefix _ _, ?_⟩
    rw [List.length_take]
    omega

-- It is all of the memory exactly when the length has not been narrowed.
theorem GoBytes_eq_iff (bytes : Bytes) :
    GoBytes bytes (.ofNat bytes.length) = .ok bytes ↔ bytes.length < 2 ^ 31 :=
  ⟨fun h => (GoBytes_ok h).2, GoBytes_of_lt⟩

-- What follows `front` in a buffer that has enough of it.
theorem window (front middle rest : Bytes) {buf : Bytes} (hframe : buf <+: front ++ middle ++ rest)
    (hlength : front.length + middle.length ≤ buf.length) :
    (buf.take (front.length + middle.length)).drop front.length = middle := by
  have hfront : front ++ middle <+: buf :=
    List.prefix_of_prefix_length_le (List.prefix_append _ rest) hframe (by simpa using hlength)
  obtain ⟨more, rfl⟩ := hfront
  rw [← List.length_append, List.take_left, List.drop_left]

section Located

variable {front rest buf key : Bytes}

theorem toInt_kOff (key : Bytes) (h : front.length + 4 ≤ buf.length) (hbuf : buf.length < 2 ^ 31) :
    (located front.length key).kOff.toInt = front.length + 4 :=
  Int32.toInt_ofInt_of_le (by omega) (by omega)

-- A key that lies in the buffer as a whole is cut out.
theorem cut_located (hframe : buf <+: front ++ (Radix.toLE 4 key.length ++ key) ++ rest)
    (hbuf : buf.length < 2 ^ 31) (hkey : front.length + 4 + key.length ≤ buf.length) :
    cut buf (located front.length key) = .ok key := by
  have hoff := toInt_kOff key (show front.length + 4 ≤ buf.length by omega) hbuf
  have hlen : (located front.length key).kLen.toInt = key.length :=
    Int32.toInt_ofNat_of_lt (by omega)
  have hend : ((located front.length key).kOff + (located front.length key).kLen).toInt =
      (front.length + 4 + key.length : Nat) := by
    rw [Int32.toInt_add, hoff, hlen, Int.bmod_eq_of_le (by omega) (by omega)]
    omega
  have htake : (buf.take (front.length + 4 + key.length)).drop (front.length + 4) = key := by
    have hwindow := window (front ++ Radix.toLE 4 key.length) key rest
      (by simpa using hframe) (by simpa using hkey)
    simpa using hwindow
  simp only [cut, slice, hoff, hend]
  rw [if_pos (by omega), show (front.length + 4 : Int).toNat = front.length + 4 by omega,
    Int.toNat_natCast, htake]

-- Nothing else is: were the key's end narrowed or out of the buffer, the slice would panic.
theorem cut_located_ok (front : Bytes)
    (hframe : buf <+: front ++ (Radix.toLE 4 key.length ++ key) ++ rest)
    (hbuf : buf.length < 2 ^ 31) (hkey : key.length < 2 ^ 32)
    (hheader : front.length + 4 ≤ buf.length) {found : Bytes}
    (h : cut buf (located front.length key) = .ok found) :
    found = key ∧ front.length + 4 + key.length ≤ buf.length := by
  have hoff := toInt_kOff key hheader hbuf
  have hfits : front.length + 4 + key.length ≤ buf.length := by
    have hlen : (located front.length key).kLen.toInt = (key.length : Int).bmod (2 ^ 32) :=
      Int32.toInt_ofNat'
    simp only [cut, slice, Int32.toInt_add, hoff, hlen] at h
    split at h
    · next hbounds =>
        simp only [Int.bmod_def] at hbounds
        omega
    · simp at h
  refine ⟨?_, hfits⟩
  rw [cut_located hframe hbuf hfits] at h
  exact (Except.ok.inj h).symm

-- One round of the loop.
theorem parse_located (front : Bytes)
    (hframe : buf <+: front ++ (Radix.toLE 4 key.length ++ key) ++ rest)
    (hkey : key.length < 2 ^ 32) (hheader : front.length + 4 ≤ buf.length) (rounds : Nat)
    (ents : List entry) :
    parse buf (rounds + 1) front.length ents =
      parse buf rounds (front.length + 4 + (Int32.ofNat key.length).toInt)
        (ents ++ [located front.length key]) := by
  have hbytes : (buf.drop front.length).take 4 = Radix.toLE 4 key.length := by
    have hwindow := window front (Radix.toLE 4 key.length) (key ++ rest) (by simpa using hframe)
      (by simpa using hheader)
    rw [List.take_drop]
    simpa using hwindow
  have hread : Radix.ofLE (Radix.toLE 4 key.length) = key.length :=
    Radix.ofLE_toLE_of_lt 4 _ (by simpa using hkey)
  rw [parse, if_pos (by omega), if_neg (by omega), Int.toNat_natCast, hbytes, hread]
  rfl

end Located

-- A frame that an `int32` can index is parsed into its keys.
theorem parse_key_frame (front : Bytes) {taken : List Item} {rounds : Nat}
    (hshort : (front ++ key_frame taken).length < 2 ^ 31) (hrounds : taken.length ≤ rounds)
    (ents : List entry) :
    parse (front ++ key_frame taken) rounds front.length ents =
      .ok (ents ++ offsets front.length taken) := by
  induction taken generalizing front rounds ents with
  | nil =>
      cases rounds <;> simp [parse, key_frame, offsets]
  | cons x xs ih =>
      obtain ⟨rounds, rfl⟩ : ∃ n, rounds = n + 1 := ⟨rounds - 1, by simp at hrounds; omega⟩
      have hframe : front ++ key_frame (x :: xs) =
          front ++ (Radix.toLE 4 x.key.length ++ x.key) ++ key_frame xs := by simp
      have hlength : front.length + 4 + x.key.length ≤
          (front ++ key_frame (x :: xs)).length := by
        rw [hframe]
        simp only [List.length_append, Radix.length_toLE]
        omega
      have hnext : ((front ++ (Radix.toLE 4 x.key.length ++ x.key)).length : Int) =
          front.length + 4 + (Int32.ofNat x.key.length).toInt := by
        rw [Int32.toInt_ofNat_of_lt (by omega)]
        simp only [List.length_append, Radix.length_toLE]
        omega
      have hwhole : front ++ key_frame (x :: xs) <+:
          front ++ (Radix.toLE 4 x.key.length ++ x.key) ++ key_frame xs := hframe ▸ List.prefix_rfl
      rw [parse_located _ hwhole (by omega) (by omega), ← hnext, hframe]
      rw [ih _ (by rw [← hframe]; exact hshort) (by simpa using hrounds)]
      simp only [List.append_assoc, List.singleton_append, List.length_append, Radix.length_toLE,
        offsets, Nat.add_assoc]

theorem cut_offsets (front : Bytes) {taken : List Item} {x : Item} {index : Nat}
    (hshort : (front ++ key_frame taken).length < 2 ^ 31) (hx : taken[index]? = some x) :
    ∃ e, (offsets front.length taken)[index]? = some e ∧
      cut (front ++ key_frame taken) e = .ok x.key := by
  induction taken generalizing front index with
  | nil => simp at hx
  | cons y ys ih =>
      have hframe : front ++ key_frame (y :: ys) =
          front ++ (Radix.toLE 4 y.key.length ++ y.key) ++ key_frame ys := by simp
      rw [hframe] at hshort ⊢
      cases index with
      | zero =>
          obtain rfl : y = x := by simpa using hx
          refine ⟨_, rfl, cut_located List.prefix_rfl hshort ?_⟩
          simp only [List.length_append, Radix.length_toLE]
          omega
      | succ index =>
          obtain ⟨e, he, hcut⟩ := ih _ hshort (by simpa using hx)
          refine ⟨e, ?_, hcut⟩
          simpa [offsets, Nat.add_assoc] using he

theorem parse_appends {buf : Bytes} {rounds : Nat} {at_ : Int} {ents ents' : List entry}
    (h : parse buf rounds at_ ents = .ok ents') : ents <+: ents' := by
  induction rounds generalizing at_ ents with
  | zero =>
      rw [parse] at h
      split_ifs at h
      obtain rfl := Except.ok.inj h
      exact List.prefix_rfl
  | succ rounds ih =>
      rw [parse] at h
      split_ifs at h
      · exact (List.prefix_append _ _).trans (ih h)
      · obtain rfl := Except.ok.inj h
        exact List.prefix_rfl

-- Inside the buffer there is a header to read, and a round to read it in.
theorem parse_inside {buf : Bytes} {rounds at_ : Nat} {ents ents' : List entry}
    (hinside : at_ < buf.length) (h : parse buf rounds at_ ents = .ok ents') :
    at_ + 4 ≤ buf.length ∧ ∃ left, rounds = left + 1 := by
  cases rounds with
  | zero =>
      rw [parse, if_pos (by omega)] at h
      split_ifs at h
  | succ left =>
      rw [parse, if_pos (by omega)] at h
      split_ifs at h with hout
      exact ⟨by omega, left, rfl⟩

-- The other way round: when every entry found cuts out the key at its place, the
-- buffer holds these keys and nothing else.
theorem parse_conforms (front : Bytes) {buf : Bytes} {taken : List Item} {rounds : Nat}
    {ents ents' : List entry} (hframe : buf <+: front ++ key_frame taken)
    (hshort : buf.length < 2 ^ 31) (hfront : front.length ≤ buf.length) (hkeys : Framable taken)
    (hparse : parse buf rounds front.length ents = .ok ents')
    (hcut : ∀ (index : Nat) (e : entry) (x : Item), ents'[ents.length + index]? = some e →
      taken[index]? = some x → cut buf e = .ok x.key) :
    ∃ count, count ≤ taken.length ∧ ents'.length = ents.length + count ∧
      buf = front ++ key_frame (taken.take count) := by
  induction taken generalizing front rounds ents with
  | nil =>
      have hbuf : buf = front :=
        (by simpa [key_frame] using hframe : buf <+: front).eq_of_length_le hfront
      subst hbuf
      have hsame : ents' = ents := by
        cases rounds <;> simpa [parse, eq_comm] using hparse
      exact ⟨0, le_rfl, by simp [hsame], by simp [key_frame]⟩
  | cons x xs ih =>
      have hcons : front ++ key_frame (x :: xs) =
          front ++ (Radix.toLE 4 x.key.length ++ x.key) ++ key_frame xs := by simp
      rw [hcons] at hframe
      rcases hfront.lt_or_eq with hlt | heq
      · obtain ⟨hheader, rounds, rfl⟩ := parse_inside hlt hparse
        rw [parse_located _ hframe (hkeys x (by simp)) hheader] at hparse
        have hfirst : ents'[ents.length]? = some (located front.length x.key) := by
          obtain ⟨more, rfl⟩ := parse_appends hparse
          simp
        obtain ⟨-, hfits⟩ := cut_located_ok _ hframe hshort (hkeys x (by simp)) hheader
          (hcut 0 _ x (by simpa using hfirst) (by simp))
        have hnext : (front.length + 4 + (Int32.ofNat x.key.length).toInt : Int) =
            ((front ++ (Radix.toLE 4 x.key.length ++ x.key)).length : Nat) := by
          rw [Int32.toInt_ofNat_of_lt (by omega)]
          simp only [List.length_append, Radix.length_toLE]
          omega
        rw [hnext] at hparse
        obtain ⟨count, hcount, hlength, hbuf⟩ := ih _ hframe
          (by simp only [List.length_append, Radix.length_toLE]; omega)
          (fun y hy => hkeys y (by simp [hy])) hparse
          (fun index e y he hy => hcut (index + 1) e y
            (by simpa [Nat.add_assoc, Nat.add_comm 1] using he)
            (by simpa using hy))
        refine ⟨count + 1, by simpa using hcount, ?_, ?_⟩
        · rw [hlength, List.length_append, List.length_singleton]
          omega
        · rw [hbuf]
          simp
      · have hbuf : buf = front := by
          have hfront : front <+: front ++ (Radix.toLE 4 x.key.length ++ x.key) ++ key_frame xs := by
            rw [List.append_assoc]
            exact List.prefix_append _ _
          exact (List.prefix_of_prefix_length_le hframe hfront heq.ge).eq_of_length heq.symm
        subst hbuf
        have hsame : ents' = ents := by
          cases rounds <;> simpa [parse, eq_comm] using hparse
        exact ⟨0, by simp, by simp [hsame], by simp [key_frame]⟩

-- Whatever part of a frame is parsed, it gives no more entries than the frame has keys,
-- as long as none of them is so long that its length turns negative.
theorem parse_length_le (front : Bytes) {buf : Bytes} {taken : List Item} {rounds : Nat}
    {ents ents' : List entry} (hframe : buf <+: front ++ key_frame taken)
    (hfront : front.length ≤ buf.length) (hkeys : ∀ x ∈ taken, x.key.length < 2 ^ 31)
    (hparse : parse buf rounds front.length ents = .ok ents') :
    ents'.length ≤ ents.length + taken.length := by
  have hstop (at_ : Int) (hpast : ¬at_ < buf.length) {rounds : Nat} {ents : List entry}
      (hparse : parse buf rounds at_ ents = .ok ents') : ents' = ents := by
    cases rounds <;> simpa [parse, hpast, eq_comm] using hparse
  induction taken generalizing front rounds ents with
  | nil =>
      have hbuf := hframe.length_le
      simp only [key_frame, List.flatMap_nil, List.append_nil] at hbuf
      rw [hstop _ (by omega) hparse]
      simp
  | cons x xs ih =>
      have hcons : front ++ key_frame (x :: xs) =
          front ++ (Radix.toLE 4 x.key.length ++ x.key) ++ key_frame xs := by simp
      rw [hcons] at hframe
      simp only [List.forall_mem_cons] at hkeys
      rcases hfront.lt_or_eq with hlt | heq
      · obtain ⟨hheader, rounds, rfl⟩ := parse_inside hlt hparse
        rw [parse_located _ hframe (by omega) hheader] at hparse
        have hnext : (front.length + 4 + (Int32.ofNat x.key.length).toInt : Int) =
            ((front ++ (Radix.toLE 4 x.key.length ++ x.key)).length : Nat) := by
          rw [Int32.toInt_ofNat_of_lt hkeys.1]
          simp only [List.length_append, Radix.length_toLE]
          omega
        rw [hnext] at hparse
        rcases Nat.lt_or_ge buf.length (front ++ (Radix.toLE 4 x.key.length ++ x.key)).length with
          hpast | hwithin
        · rw [hstop _ (by omega) hparse]
          simp only [List.length_append, List.length_cons, List.length_nil]
          omega
        · have hrest := ih _ hframe hwithin hkeys.2 hparse
          simp only [List.length_append, List.length_cons, List.length_nil] at hrest ⊢
          omega
      · rw [hstop _ (by omega) hparse]
        simp

-- `rounds` records from offset `at_` to the end of the frame or past it, each with a whole
-- header and as long as an `int32` has the length in it.
inductive Records (frame : Bytes) : Nat → Int → Prop where
  | past {at_ : Int} (h : frame.length ≤ at_) : Records frame 0 at_
  | record {rounds : Nat} {at_ : Int} (hstart : 0 ≤ at_) (hheader : at_ + 4 ≤ frame.length)
      (h : Records frame rounds
        (at_ + 4 + (Int32.ofNat (Radix.ofLE ((frame.drop at_.toNat).take 4))).toInt)) :
      Records frame (rounds + 1) at_

section Records

variable {frame : Bytes} {rounds : Nat} {at_ : Int}

theorem Records.unique {rounds' : Nat} (h : Records frame rounds at_)
    (h' : Records frame rounds' at_) : rounds = rounds' := by
  induction h generalizing rounds' with
  | past hpast =>
    cases h' with
    | past => rfl
    | record _ hheader => omega
  | record _ hheader _ ih =>
    cases h' with
    | past hpast => omega
    | record _ _ hrest => rw [ih hrest]

-- However many rounds are left, there was a place in the frame with so many to go.
theorem Records.exists_at {left : Nat} (h : Records frame rounds at_) (hleft : left < rounds) :
    ∃ place < frame.length, Records frame (left + 1) (place : Nat) := by
  induction h with
  | past => omega
  | @record rounds at_ hstart hheader hrest ih =>
    rcases (Nat.lt_succ_iff.mp hleft).lt_or_eq with hlt | rfl
    · exact ih hlt
    · lift at_ to Nat using hstart
      exact ⟨at_, by omega, .record (by omega) hheader hrest⟩

-- No place is come to twice, so there are no more rounds than places.
theorem Records.rounds_le (h : Records frame rounds at_) : rounds ≤ frame.length := by
  choose place hplace hrecords using fun left : Fin rounds => h.exists_at left.isLt
  have hinjective : Function.Injective fun left => (⟨place left, hplace left⟩ : Fin frame.length) := by
    intro left left' hsame
    have hat : place left = place left' := congrArg Fin.val hsame
    have hcount := (hrecords left).unique (hat ▸ hrecords left')
    exact Fin.ext (Nat.succ.inj hcount)
  simpa using Fintype.card_le_of_injective _ hinjective

theorem exists_parse_iff (ents : List entry) :
    (∃ ents', parse frame rounds at_ ents = .ok ents') ↔
      ∃ taken ≤ rounds, Records frame taken at_ := by
  induction rounds generalizing at_ ents with
  | zero =>
    rw [parse]
    constructor
    · rintro ⟨ents', h⟩
      split_ifs at h with hinside
      exact ⟨0, le_rfl, .past (not_lt.mp hinside)⟩
    · rintro ⟨taken, htaken, h⟩
      obtain rfl : taken = 0 := by omega
      cases h with
      | past hpast => exact ⟨ents, if_neg (not_lt.mpr hpast)⟩
  | succ rounds ih =>
    rw [parse]
    constructor
    · rintro ⟨ents', h⟩
      split_ifs at h with hinside hout
      · obtain ⟨taken, htaken, hrest⟩ := (ih _).mp ⟨ents', h⟩
        exact ⟨taken + 1, by omega, .record (by omega) (by omega) hrest⟩
      · exact ⟨0, Nat.zero_le _, .past (not_lt.mp hinside)⟩
    · rintro ⟨taken, htaken, h⟩
      cases h with
      | past hpast => exact ⟨ents, if_neg (not_lt.mpr hpast)⟩
      | record hstart hheader hrest =>
        rw [if_pos (by omega), if_neg (by omega)]
        exact (ih _).mpr ⟨_, by omega, hrest⟩

-- The rounds that `refill` has are enough.
theorem parse_ends_iff :
    (∃ ents, parse frame frame.length 0 [] = .ok ents) ↔ ∃ rounds, Records frame rounds 0 := by
  rw [exists_parse_iff]
  exact ⟨fun ⟨rounds, _, h⟩ => ⟨rounds, h⟩, fun ⟨rounds, h⟩ => ⟨rounds, h.rounds_le, h⟩⟩

end Records

-- The records of keys that an `int32` can index are such records.
theorem records_pack {keys : List Bytes}
    (hshort : (PrefixCode.pack key_record keys).length < 2 ^ 31) :
    ∃ rounds, Records (PrefixCode.pack key_record keys) rounds 0 := by
  have hframe : PrefixCode.pack key_record keys =
      [] ++ key_frame (keys.map fun key => ⟨key, []⟩) := by
    simp [key_frame_eq_pack, Function.comp_def]
  have hparse := parse_key_frame [] (hframe ▸ hshort) le_rfl []
  rw [← hframe] at hparse
  obtain ⟨rounds, -, h⟩ := (exists_parse_iff []).mp ⟨_, hparse⟩
  exact ⟨rounds, h⟩

end Regolith.Go
