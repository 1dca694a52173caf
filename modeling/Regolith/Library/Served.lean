import Regolith.Library.Goroutine
import Regolith.Library.Linearizable

-- Goroutines whose calls are served from outside, each in one step while it is out, and the
-- rule by which the object they share is linearizable: one walk over the code of each method,
-- that says at which step the method has its effect.
namespace Goroutine

open RwLock (Mode)
open Linear (Linearizable Seen Caller)

variable {ι : Type} {S : Signature} {E : Type}

-- What serves the calls: a state of its own, and what a call may come back with.
abbrev Server (S : Signature) (E : Type) := E → (c : S.Call) → S.Reply c → E → Prop

def Event.isFinish : Event ι S → Bool
  | .finish _ _ _ => true
  | _ => false

namespace Served

-- `reply` is what a call that is out was served with.
structure State (ι : Type) (S : Signature) (E : Type) where
  base : Goroutine.State ι S
  engine : E
  reply : ι → Option ((c : S.Call) × S.Reply c)

inductive Label (ι : Type) (S : Signature) where
  | event (e : Event ι S)
  | serve (g : ι) (c : S.Call) (r : S.Reply c)

def first (o : Object S) (engine : E) : State ι S E := ⟨.first o, engine, fun _ => none⟩

variable [DecidableEq ι] [DecidableEq S.Flag]

def State.answer (s : State ι S E) (g : ι) (r : Option ((c : S.Call) × S.Reply c)) :
    State ι S E :=
  { s with reply := Function.update s.reply g r }

inductive Step (o : Object S) (serves : Server S E) : State ι S E → Label ι S → State ι S E → Prop
  where
  | event {s e b} (h : Goroutine.Step o s.base e b) (he : e.isFinish = false) :
      Step o serves s (.event e) { s with base := b }
  | serve {s g m c next r x} (h : s.base.frames g = some ⟨m, .call c next, true⟩)
      (hreply : s.reply g = none) (hserves : serves s.engine c r x) :
      Step o serves s (.serve g c r) { s.answer g (some ⟨c, r⟩) with engine := x }
  | finish {s g c r b} (h : Goroutine.Step o s.base (.finish g c r) b)
      (hreply : s.reply g = some ⟨c, r⟩) :
      Step o serves s (.event (.finish g c r)) { s.answer g none with base := b }

abbrev Runs (o : Object S) (serves : Server S E) (engine : E) :
    List (Label ι S) → State ι S E → Prop :=
  Run (Step o serves) (first o engine)

-- Which replies are failures, of what kind.
abbrev Faults (S : Signature) (φ : Type) := (c : S.Call) → S.Reply c → Option φ

def Faults.none (S : Signature) : Faults S Empty := fun _ _ => Option.none

variable {φ : Type}

def seen (fails : Faults S φ) : Label ι S → Option (Seen ι S.Method S.Answer φ S.Flag)
  | .event (.raise flag) => some (.raise flag)
  | .event (.enter g m) => some (.enter g m)
  | .event (.leave g m answer) => some (.leave g m answer)
  | .event _ => none
  | .serve g c r => (fails c r).map (.fault g)

def history (fails : Faults S φ) (τ : List (Label ι S)) :
    List (Seen ι S.Method S.Answer φ S.Flag) :=
  τ.filterMap (seen fails)

omit [DecidableEq ι] [DecidableEq S.Flag] in
theorem history_append (fails : Faults S φ) (τ τ' : List (Label ι S)) :
    history fails (τ ++ τ') = history fails τ ++ history fails τ' :=
  List.filterMap_append

-- Where a method stands: to the lock, and whether it had its effect, with what answer. Under
-- the write side all that is shared is known.
inductive Place (S : Signature) (E X : Type) where
  | before
  | reading (flags : S.Flag → Bool) (done : Option S.Answer)
  | writing (flags : S.Flag → Bool) (engine : E) (x : X) (done : Option S.Answer)
  | after (done : Option S.Answer)

section Rule

variable (o : Object S) (serves : Server S E) (fails : Faults S φ)
variable (O : Linear.Object S.Method S.Answer φ S.Flag)

abbrev Call (S : Signature) (φ : Type) := Linear.Call S.Method φ S.Flag

-- One step of a method has its effect, or none.
def Effect (call : Call S φ) (now : S.Flag → Bool) (x : O.State) (done done' : Option S.Answer)
    (x' : O.State) : Prop :=
  done' = done ∧ x' = x ∨
    done = none ∧ ∃ answer, done' = some answer ∧ O.does x call now answer x'

-- `Rel` links the flags and what serves the calls to the object while nobody is on the write
-- side.
variable (Rel : (S.Flag → Bool) → E → O.State → Prop)

-- What is known where a flag is read. One that is raised from outside is as the object has it.
structure Reads (call : Call S φ) (flags : S.Flag → Bool) (flag : S.Flag) (old : Bool) :
    Prop where
  own : o.outside flag = false → old = flags flag
  before : call.before flag = true → old = true

def Lin (call : Call S φ) : Prog S → Place S E O.State → Prop
  | .lock .read next, .before => ∀ flags engine x, Rel flags engine x →
      Lin call next (.reading flags none)
  | .lock .write next, .before => ∀ flags engine x, Rel flags engine x →
      Lin call next (.writing flags engine x none)
  | .unlock .read next, .reading _ done => Lin call next (.after done)
  | .unlock .write next, .writing flags engine x done =>
      Rel flags engine x ∧ Lin call next (.after done)
  | .access flag new next, .reading flags done => ∀ old, Reads o call flags flag old →
      new old = old ∧ ∃ done',
        (∀ now engine x, (o.outside flag = true → now flag = old) → Rel flags engine x →
          ∃ x', Effect O call now x done done' x' ∧ Rel flags engine x') ∧
        Lin call (next old) (.reading flags done')
  | .access flag new next, .writing flags engine x done => ∀ old, Reads o call flags flag old →
      (o.outside flag = true → new old = old) ∧ ∃ done' x',
        (∀ now, (o.outside flag = true → now flag = old) → Effect O call now x done done' x') ∧
        Lin call (next old) (.writing (Function.update flags flag (new old)) engine x' done')
  | .call c next, .reading flags done => ∀ r, ∃ done',
      (∀ now engine x engine', Rel flags engine x → serves engine c r engine' →
        ∃ x', Effect O (call.noting (fails c r)) now x done done' x' ∧ Rel flags engine' x') ∧
      Lin (call.noting (fails c r)) (next r) (.reading flags done')
  | .call c next, .writing flags engine x done => ∀ r engine', serves engine c r engine' →
      ∃ done' x', (∀ now, Effect O (call.noting (fails c r)) now x done done' x') ∧
        Lin (call.noting (fails c r)) (next r) (.writing flags engine' x' done')
  | .ret answer, .after done => done = some answer
  | _, _ => False

structure Linearized (engine : E) : Prop where
  first : Rel o.flags engine O.first
  lowered : ∀ flag, o.outside flag = true → o.flags flag = false
  congr : ∀ {flags flags' engine x}, (∀ flag, o.outside flag = false → flags' flag = flags flag) →
    Rel flags engine x → Rel flags' engine x
  bodies : ∀ m before, Lin o serves fails O Rel ⟨m, before, []⟩ (o.body m) .before

-- What is left of a method, from a call that was served on or from where it is.
def Ready (f : Frame S) (call : Call S φ) (place : Place S E O.State) :
    Option ((c : S.Call) × S.Reply c) → Prop
  | none => Lin o serves fails O Rel call f.code place
  | some ⟨c, r⟩ => f.calling = true ∧ ∃ next, f.code = .call c next ∧
      Lin o serves fails O Rel call (next r) place

-- The flags as one under the lock knows them.
def Knows (s : State ι S E) (flags : S.Flag → Bool) : Prop :=
  ∀ flag, o.outside flag = false → s.base.flags flag = flags flag

def Fits (s : State ι S E) (t : Linear.State ι O) (g : ι) (call : Call S φ) :
    Place S E O.State → Prop
  | .before => s.base.lk.held g = none ∧ t.callers g = .calls call none
  | .reading flags done =>
      s.base.lk.held g = some .read ∧ Knows o s flags ∧ t.callers g = .calls call done
  | .writing flags engine x done => s.base.lk.held g = some .write ∧ Knows o s flags ∧
      s.engine = engine ∧ t.object = x ∧ t.callers g = .calls call done
  | .after done => s.base.lk.held g = none ∧ t.callers g = .calls call done

-- A method under way, as its caller has it.
structure Under (s : State ι S E) (t : Linear.State ι O) (g : ι) (f : Frame S) (call : Call S φ)
    (place : Place S E O.State) : Prop where
  method : call.method = f.method
  ready : Ready o serves fails O Rel f call place (s.reply g)
  fits : Fits o O s t g call place

-- Where a goroutine stands, at a method or at none.
def Stands (s : State ι S E) (t : Linear.State ι O) (g : ι) : Prop :=
  match s.base.frames g with
  | none => s.base.lk.held g = none ∧ t.callers g = .idle ∧ s.reply g = none
  | some f => ∃ call place, Under o serves fails O Rel s t g f call place

structure Sim (s : State ι S E) (t : Linear.State ι O) : Prop where
  stands : ∀ g, Stands o serves fails O Rel s t g
  settled : (∀ g, s.base.lk.held g ≠ some .write) → Rel s.base.flags s.engine t.object
  raised : ∀ flag, t.raised flag = (o.outside flag && s.base.flags flag)

variable {o serves fails O Rel} {s s' : State ι S E} {t t' : Linear.State ι O} {g g' : ι}

omit [DecidableEq S.Flag] in
theorem Fits.mono {call : Call S φ} {place : Place S E O.State} (h : Fits o O s t g call place)
    (hheld : s'.base.lk.held g = s.base.lk.held g) (hcaller : t'.callers g = t.callers g)
    (hflags : s.base.lk.held g ≠ none → ∀ flag, o.outside flag = false →
      s'.base.flags flag = s.base.flags flag)
    (hwrite : s.base.lk.held g = some .write → s'.engine = s.engine ∧ t'.object = t.object) :
    Fits o O s' t' g call place := by
  cases place with
  | before => exact ⟨hheld.trans h.1, hcaller.trans h.2⟩
  | after done => exact ⟨hheld.trans h.1, hcaller.trans h.2⟩
  | reading flags done =>
    obtain ⟨hread, hknows, hcalls⟩ := h
    refine ⟨hheld.trans hread, fun flag hin => ?_, hcaller.trans hcalls⟩
    exact (hflags (by simp [hread]) flag hin).trans (hknows flag hin)
  | writing flags engine x done =>
    obtain ⟨hheld', hknows, rfl, rfl, hcalls⟩ := h
    obtain ⟨hengine, hobject⟩ := hwrite hheld'
    refine ⟨hheld.trans hheld', fun flag hin => ?_, hengine, hobject, hcaller.trans hcalls⟩
    exact (hflags (by simp [hheld']) flag hin).trans (hknows flag hin)

theorem Stands.mono (h : Stands o serves fails O Rel s t g)
    (hframe : s'.base.frames g = s.base.frames g) (hreply : s'.reply g = s.reply g)
    (hheld : s'.base.lk.held g = s.base.lk.held g) (hcaller : t'.callers g = t.callers g)
    (hflags : s.base.lk.held g ≠ none → ∀ flag, o.outside flag = false →
      s'.base.flags flag = s.base.flags flag)
    (hwrite : s.base.lk.held g = some .write → s'.engine = s.engine ∧ t'.object = t.object) :
    Stands o serves fails O Rel s' t' g := by
  unfold Stands at h ⊢
  rw [hframe]
  cases hf : s.base.frames g with
  | none =>
    simp only [hf] at h
    rw [hheld, hcaller, hreply]
    exact h
  | some f =>
    simp only [hf] at h
    obtain ⟨call, place, hmethod, hready, hfits⟩ := h
    exact ⟨call, place, hmethod, hreply ▸ hready, hfits.mono hheld hcaller hflags hwrite⟩

theorem stands_of_frame {f : Frame S} (hf : s.base.frames g = some f) {call : Call S φ}
    {place : Place S E O.State} (h : Under o serves fails O Rel s t g f call place) :
    Stands o serves fails O Rel s t g := by
  simp only [Stands, hf]
  exact ⟨call, place, h⟩

theorem Stands.of_frame (h : Stands o serves fails O Rel s t g) {f : Frame S}
    (hf : s.base.frames g = some f) :
    ∃ call place, Under o serves fails O Rel s t g f call place := by
  simpa only [Stands, hf] using h

theorem Stands.of_idle (h : Stands o serves fails O Rel s t g) (hf : s.base.frames g = none) :
    s.base.lk.held g = none ∧ t.callers g = .idle ∧ s.reply g = none := by
  simpa only [Stands, hf] using h

theorem Ready.of_lin {f : Frame S} {call : Call S φ} {place : Place S E O.State}
    {r : Option ((c : S.Call) × S.Reply c)} (hr : r = none)
    (h : Lin o serves fails O Rel call f.code place) : Ready o serves fails O Rel f call place r := by
  subst hr
  exact h

-- A frame whose call is not out was served with nothing.
theorem Ready.of_idle {m : S.Method} {code : Prog S} {call : Call S φ}
    {place : Place S E O.State} {r : Option ((c : S.Call) × S.Reply c)}
    (h : Ready o serves fails O Rel ⟨m, code, false⟩ call place r) :
    r = none ∧ Lin o serves fails O Rel call code place := by
  cases r with
  | none => exact ⟨rfl, h⟩
  | some r => exact absurd h.1 (by simp)

section Run

variable {κ : List (Linear.Moment ι S.Method S.Answer φ S.Flag)} {call : Call S φ}
  {done done' : Option S.Answer}

theorem exists_noted (run : Run (Linear.Step O) (.start O) κ t)
    (hcalls : t.callers g = .calls call done) (f : Option φ) :
    ∃ κ', Run (Linear.Step O) (.start O) (κ ++ κ') (t.put g (.calls (call.noting f) done)) ∧
      Linear.history κ' = (f.map (.fault g)).toList := by
  cases f with
  | none =>
    have ht : t.put g (.calls (call.noting none) done) = t := by
      simp [Linear.State.put, Linear.Call.noting, ← hcalls]
    exact ⟨[], by rwa [ht, List.append_nil], rfl⟩
  | some f => exact ⟨[.seen (.fault g f)], .snoc run (.fault f hcalls), rfl⟩

theorem exists_effect {x : O.State} (run : Run (Linear.Step O) (.start O) κ t)
    (hcalls : t.callers g = .calls call done)
    (heffect : Effect O call t.raised t.object done done' x) :
    ∃ κ', Run (Linear.Step O) (.start O) (κ ++ κ')
      { t.put g (.calls call done') with object := x } ∧ Linear.history κ' = [] := by
  obtain ⟨rfl, rfl⟩ | ⟨rfl, answer, rfl, hdoes⟩ := heffect
  · refine ⟨[], ?_, rfl⟩
    have ht : { t.put g (.calls call done') with object := t.object } = t := by
      simp [Linear.State.put, ← hcalls]
    rw [ht, List.append_nil]
    exact run
  · exact ⟨[.effect g answer], .snoc run (.effect hcalls hdoes), rfl⟩

end Run

-- Whoever reads keeps the write side from everybody.
theorem Sim.settled_of_read (h : Sim o serves fails O Rel s t)
    (hread : s.base.lk.held g = some .read) : Rel s.base.flags s.engine t.object := by
  refine h.settled fun g' hwrite => ?_
  have hread' : s.base.lk.held g ≠ none := by simp [hread]
  obtain rfl := RWMutex.held_write_alone hwrite hread'
  simp [hread] at hwrite

namespace Sim

theorem first {engine : E} (hL : Linearized o serves fails O Rel engine) :
    Sim o serves fails O Rel (first o engine : State ι S E) (.start O) := by
  refine ⟨fun _ => ⟨RWMutex.free_held _, rfl, rfl⟩, fun _ => hL.first, fun flag => ?_⟩
  change false = (o.outside flag && o.flags flag)
  cases hout : o.outside flag with
  | false => rfl
  | true => exact (hL.lowered flag hout).symm

theorem raise {engine : E} (hL : Linearized o serves fails O Rel engine)
    (h : Sim o serves fails O Rel s t) {flag : S.Flag} (hout : o.outside flag = true) :
    Sim o serves fails O Rel
      { s with base := { s.base with flags := Function.update s.base.flags flag true } }
      (t.raise flag) := by
  have hflags : ∀ other, o.outside other = false →
      Function.update s.base.flags flag true other = s.base.flags other := by
    intro other hin
    have hne : other ≠ flag := fun heq => by simp [heq, hout] at hin
    simp [hne]
  refine ⟨fun g => ?_, fun hfree => hL.congr hflags (h.settled hfree), fun other => ?_⟩
  · exact (h.stands g).mono rfl rfl rfl rfl (fun _ => hflags) fun _ => ⟨rfl, rfl⟩
  · by_cases hother : other = flag
    · subst hother
      simp [Linear.State.raise, hout]
    · simp [Linear.State.raise, hother, h.raised other]

theorem enter (h : Sim o serves fails O Rel s t) {m : S.Method} {code : Prog S}
    (hf : s.base.frames g = none)
    (hcode : Lin o serves fails O Rel ⟨m, t.raised, []⟩ code .before) :
    Sim o serves fails O Rel { s with base := s.base.put g (some ⟨m, code, false⟩) }
      (t.put g (.calls ⟨m, t.raised, []⟩ none)) := by
  obtain ⟨hheld, -, hreply⟩ := (h.stands g).of_idle hf
  refine ⟨fun g' => ?_, h.settled, h.raised⟩
  by_cases hg : g' = g
  · subst hg
    refine stands_of_frame (s.base.put_frames_self g' _)
      ⟨rfl, .of_lin hreply hcode, hheld, ?_⟩
    simp [Linear.State.put]
  · exact (h.stands g').mono (s.base.put_frames_of_ne _ hg) rfl rfl (by simp [Linear.State.put, hg])
      (fun _ _ _ => rfl) fun _ => ⟨rfl, rfl⟩

theorem lock (h : Sim o serves fails O Rel s t) {m : S.Method} {mode : Mode} {next : Prog S}
    {lk : RWMutex ι} (hf : s.base.frames g = some ⟨m, .lock mode next, false⟩)
    (hlk : s.base.lk.acquire g mode = some lk) :
    Sim o serves fails O Rel
      { s with base := { s.base.put g (some ⟨m, next, false⟩) with lk := lk } } t := by
  obtain ⟨call, place, hmethod, hready, hfits⟩ := (h.stands g).of_frame hf
  obtain ⟨hreply, hlin⟩ := hready.of_idle
  have hrel := h.settled (RWMutex.acquire_no_writer hlk)
  have hheld := RWMutex.acquire_held hlk
  refine ⟨fun g' => ?_, fun _ => hrel, h.raised⟩
  by_cases hg : g' = g
  · subst hg
    cases place with
    | before =>
      cases mode with
      | read =>
        refine stands_of_frame (s.base.put_frames_self g' _)
          ⟨hmethod, .of_lin hreply (hlin _ _ _ hrel), ?_⟩
        exact ⟨by simp [hheld], fun _ _ => rfl, hfits.2⟩
      | write =>
        refine stands_of_frame (s.base.put_frames_self g' _)
          ⟨hmethod, .of_lin hreply (hlin _ _ _ hrel), ?_⟩
        exact ⟨by simp [hheld], fun _ _ => rfl, rfl, rfl, hfits.2⟩
    | reading | writing | after => cases mode <;> exact hlin.elim
  · exact (h.stands g').mono (s.base.put_frames_of_ne _ hg) rfl (by simp [hheld, hg]) rfl
      (fun _ _ _ => rfl) fun _ => ⟨rfl, rfl⟩

theorem unlock {engine : E} (hL : Linearized o serves fails O Rel engine)
    (h : Sim o serves fails O Rel s t) {m : S.Method} {mode : Mode} {next : Prog S}
    (hf : s.base.frames g = some ⟨m, .unlock mode next, false⟩)
    (hlk : s.base.lk.held g = some mode) :
    Sim o serves fails O Rel { s with base :=
      { s.base.put g (some ⟨m, next, false⟩) with lk := s.base.lk.release g mode } } t := by
  obtain ⟨call, place, hmethod, hready, hfits⟩ := (h.stands g).of_frame hf
  obtain ⟨hreply, hlin⟩ := hready.of_idle
  have hheld := RWMutex.release_held hlk
  have hafter : ∃ done, Lin o serves fails O Rel call next (.after done) ∧
      t.callers g = .calls call done ∧ Rel s.base.flags s.engine t.object := by
    cases place with
    | before | after => cases mode <;> exact hlin.elim
    | reading flags done =>
      cases mode with
      | read => exact ⟨done, hlin, hfits.2.2, h.settled_of_read hlk⟩
      | write => exact hlin.elim
    | writing flags engine x done =>
      cases mode with
      | read => exact hlin.elim
      | write =>
        obtain ⟨-, hknows, rfl, rfl, hcalls⟩ := hfits
        exact ⟨done, hlin.2, hcalls, hL.congr hknows hlin.1⟩
  obtain ⟨done, hnext, hcalls, hrel⟩ := hafter
  refine ⟨fun g' => ?_, fun _ => hrel, h.raised⟩
  by_cases hg : g' = g
  · subst hg
    refine stands_of_frame (s.base.put_frames_self g' _) ⟨hmethod, .of_lin hreply hnext, ?_⟩
    exact ⟨by simp [hheld], hcalls⟩
  · exact (h.stands g').mono (s.base.put_frames_of_ne _ hg) rfl (by simp [hheld, hg]) rfl
      (fun _ _ _ => rfl) fun _ => ⟨rfl, rfl⟩

-- What a step of `g` under the lock changes of the rest.
structure Moves (o : Object S) (s s' : State ι S E) (g : ι) : Prop where
  lk : s'.base.lk = s.base.lk
  frames : ∀ g' ≠ g, s'.base.frames g' = s.base.frames g'
  reply : ∀ g' ≠ g, s'.reply g' = s.reply g'
  outside : ∀ flag, o.outside flag = true → s'.base.flags flag = s.base.flags flag

theorem raised_of_moves (h : Sim o serves fails O Rel s t) (hmoves : Moves o s s' g)
    (flag : S.Flag) : t.raised flag = (o.outside flag && s'.base.flags flag) := by
  rw [h.raised flag]
  cases hout : o.outside flag with
  | false => rfl
  | true => rw [hmoves.outside flag hout]

variable {f : Frame S} {call : Call S φ} {done : Option S.Answer} {x : O.State}
  {flags : S.Flag → Bool}

theorem reads (h : Sim o serves fails O Rel s t) (hmoves : Moves o s s' g)
    (hread : s.base.lk.held g = some .read) (hflags : s'.base.flags = s.base.flags)
    (hf : s'.base.frames g = some f) (hmethod : call.method = f.method) (hknows : Knows o s flags)
    (hready : Ready o serves fails O Rel f call (.reading flags done) (s'.reply g))
    (hrel : Rel s.base.flags s'.engine x) :
    Sim o serves fails O Rel s' { t.put g (.calls call done) with object := x } := by
  have hheld : s'.base.lk.held = s.base.lk.held := by rw [hmoves.lk]
  refine ⟨fun g' => ?_, fun _ => by rw [hflags]; exact hrel, h.raised_of_moves hmoves⟩
  by_cases hg : g' = g
  · subst hg
    refine stands_of_frame hf ⟨hmethod, hready, by rw [hheld, hread], fun flag hin => ?_, ?_⟩
    · rw [hflags]
      exact hknows flag hin
    · simp [Linear.State.put]
  · refine (h.stands g').mono (hmoves.frames g' hg) (hmoves.reply g' hg) (by rw [hheld])
      (by simp [Linear.State.put, hg]) (fun _ _ _ => by rw [hflags]) fun hwrite => ?_
    have hread' : s.base.lk.held g ≠ none := by simp [hread]
    exact absurd (RWMutex.held_write_alone hwrite hread').symm hg

theorem writes (h : Sim o serves fails O Rel s t) (hmoves : Moves o s s' g)
    (hwrite : s.base.lk.held g = some .write) (hf : s'.base.frames g = some f)
    (hmethod : call.method = f.method) (hknows : Knows o s' flags)
    (hready : Ready o serves fails O Rel f call (.writing flags s'.engine x done) (s'.reply g)) :
    Sim o serves fails O Rel s' { t.put g (.calls call done) with object := x } := by
  have hheld : s'.base.lk.held = s.base.lk.held := by rw [hmoves.lk]
  refine ⟨fun g' => ?_, fun hfree => absurd (hheld ▸ hwrite) (hfree g), h.raised_of_moves hmoves⟩
  by_cases hg : g' = g
  · subst hg
    refine stands_of_frame hf ⟨hmethod, hready, by rw [hheld, hwrite], hknows, rfl, rfl, ?_⟩
    simp [Linear.State.put]
  · have hnone : s.base.lk.held g' = none := by
      by_contra hheld'
      exact hg (RWMutex.held_write_alone hwrite hheld')
    exact (h.stands g').mono (hmoves.frames g' hg) (hmoves.reply g' hg) (by rw [hheld])
      (by simp [Linear.State.put, hg]) (fun hne => absurd hnone hne) fun hw => by simp [hnone] at hw

end Sim

-- What some run of the object at once has shown, in a state that this one stands to.
def Explained (o : Object S) (serves : Server S E) (fails : Faults S φ)
    (O : Linear.Object S.Method S.Answer φ S.Flag) (Rel : (S.Flag → Bool) → E → O.State → Prop)
    (τ : List (Label ι S)) (s : State ι S E) : Prop :=
  ∃ κ t, Run (Linear.Step O) (.start O) κ t ∧ Linear.history κ = history fails τ ∧
    Sim o serves fails O Rel s t

variable {τ : List (Label ι S)} {e : Label ι S}
  {κ : List (Linear.Moment ι S.Method S.Answer φ S.Flag)}

-- All that is shown is a failure, if there is one, and the goroutine alone may then have had its
-- effect.
theorem Explained.silent {call : Call S φ} {done done' : Option S.Answer} {x : O.State}
    {f : Option φ} (run : Run (Linear.Step O) (.start O) κ t)
    (hhistory : Linear.history κ = history fails τ) (he : seen fails e = f.map (.fault g))
    (hcalls : t.callers g = .calls call done)
    (heffect : Effect O (call.noting f) t.raised t.object done done' x)
    (hsim : Sim o serves fails O Rel s'
      { t.put g (.calls (call.noting f) done') with object := x }) :
    Explained o serves fails O Rel (τ ++ [e]) s' := by
  obtain ⟨κ₁, run₁, hnoted⟩ := exists_noted run hcalls f
  obtain ⟨κ₂, run₂, hnone⟩ := exists_effect (g := g) run₁ (by simp [Linear.State.put]) heffect
  refine ⟨κ ++ κ₁ ++ κ₂, _, run₂, ?_, ?_⟩
  · rw [Linear.history_append, Linear.history_append, hhistory, hnoted, hnone, history_append,
      List.append_nil]
    cases f <;> simp [history, he]
  · simpa [Linear.State.put] using hsim

theorem Explained.access (run : Run (Linear.Step O) (.start O) κ t)
    (hhistory : Linear.history κ = history fails τ) (h : Sim o serves fails O Rel s t)
    {engine : E} (hL : Linearized o serves fails O Rel engine)
    {m : S.Method} {flag : S.Flag} {new : Bool → Bool} {next : Bool → Prog S}
    (hf : s.base.frames g = some ⟨m, .access flag new next, false⟩) :
    Explained o serves fails O Rel
      (τ ++ [.event (.access g flag (s.base.flags flag) (new (s.base.flags flag)))])
      { s with base := { s.base.put g (some ⟨m, next (s.base.flags flag), false⟩) with
        flags := Function.update s.base.flags flag (new (s.base.flags flag)) } } := by
  obtain ⟨call, place, hmethod, hready, hfits⟩ := (h.stands g).of_frame hf
  obtain ⟨hreply, hlin⟩ := hready.of_idle
  have hmoves (hkept : o.outside flag = true → new (s.base.flags flag) = s.base.flags flag) :
      Sim.Moves o s { s with base :=
        { s.base.put g (some ⟨m, next (s.base.flags flag), false⟩) with
          flags := Function.update s.base.flags flag (new (s.base.flags flag)) } } g := by
    refine ⟨rfl, fun g' hg => s.base.put_frames_of_ne _ hg, fun _ _ => rfl, fun other hout => ?_⟩
    by_cases hother : other = flag
    · subst hother
      simp [hkept hout]
    · simp [hother]
  -- the flag is as the object has it
  have hnow : o.outside flag = true → t.raised flag = s.base.flags flag := fun hout => by
    simp [h.raised flag, hout]
  have hbefore (done : Option S.Answer) (hcalls : t.callers g = .calls call done)
      (hraised : call.before flag = true) : s.base.flags flag = true := by
    have := Linear.before_le_raised run hcalls hraised
    rw [h.raised flag, Bool.and_eq_true] at this
    exact this.2
  cases place with
  | before | after => exact hlin.elim
  | reading flags done =>
    obtain ⟨hread, hknows, hcalls⟩ := hfits
    obtain ⟨hnew, done', heffects, hnext⟩ :=
      hlin (s.base.flags flag) ⟨hknows flag, hbefore done hcalls⟩
    have hrel := hL.congr (fun flag hin => (hknows flag hin).symm) (h.settled_of_read hread)
    obtain ⟨x, heffect, hrel'⟩ := heffects _ _ _ hnow hrel
    refine .silent (f := none) run hhistory rfl hcalls heffect
      (h.reads (f := ⟨m, next (s.base.flags flag), false⟩) (hmoves fun _ => hnew) hread ?_
        (s.base.put_frames_self g _) hmethod hknows (.of_lin hreply hnext) (hL.congr hknows hrel'))
    rw [hnew]
    exact Function.update_eq_self flag _
  | writing flags engine x done =>
    obtain ⟨hwrite, hknows, rfl, rfl, hcalls⟩ := hfits
    obtain ⟨hkept, done', x', heffect, hnext⟩ :=
      hlin (s.base.flags flag) ⟨hknows flag, hbefore done hcalls⟩
    refine .silent (f := none) run hhistory rfl hcalls (heffect _ hnow)
      (h.writes (f := ⟨m, next (s.base.flags flag), false⟩) (hmoves hkept) hwrite
        (s.base.put_frames_self g _) hmethod (fun other hin => ?_) (.of_lin hreply hnext))
    by_cases hother : other = flag
    · simp [hother]
    · simpa [hother] using hknows other hin

theorem Explained.serve (run : Run (Linear.Step O) (.start O) κ t)
    (hhistory : Linear.history κ = history fails τ) (h : Sim o serves fails O Rel s t)
    {engine : E} (hL : Linearized o serves fails O Rel engine)
    {m : S.Method} {c : S.Call} {next : S.Reply c → Prog S} {r : S.Reply c} {x : E}
    (hf : s.base.frames g = some ⟨m, .call c next, true⟩) (hreply : s.reply g = none)
    (hserves : serves s.engine c r x) :
    Explained o serves fails O Rel (τ ++ [.serve g c r])
      { s.answer g (some ⟨c, r⟩) with engine := x } := by
  obtain ⟨call, place, hmethod, hready, hfits⟩ := (h.stands g).of_frame hf
  have hlin : Lin o serves fails O Rel call (.call c next) place := by
    rw [hreply] at hready
    exact hready
  have hmoves : Sim.Moves o s { s.answer g (some ⟨c, r⟩) with engine := x } g :=
    ⟨rfl, fun _ _ => rfl, fun g' hg => by simp [State.answer, hg], fun _ _ => rfl⟩
  have hserved : ({ s.answer g (some ⟨c, r⟩) with engine := x } : State ι S E).reply g =
      some ⟨c, r⟩ := by simp [State.answer]
  have hmethod' : (call.noting (fails c r)).method = m := by
    cases fails c r <;> exact hmethod
  cases place with
  | before | after => exact hlin.elim
  | reading flags done =>
    obtain ⟨hread, hknows, hcalls⟩ := hfits
    obtain ⟨done', heffects, hnext⟩ := hlin r
    have hrel := hL.congr (fun flag hin => (hknows flag hin).symm) (h.settled_of_read hread)
    obtain ⟨x', heffect, hrel'⟩ := heffects _ _ _ _ hrel hserves
    refine .silent (f := fails c r) run hhistory rfl hcalls heffect
      (h.reads hmoves hread rfl hf hmethod' hknows ?_ (hL.congr hknows hrel'))
    rw [hserved]
    exact ⟨rfl, next, rfl, hnext⟩
  | writing flags engine x done =>
    obtain ⟨hwrite, hknows, rfl, rfl, hcalls⟩ := hfits
    obtain ⟨done', x', heffect, hnext⟩ := hlin r _ hserves
    refine .silent (f := fails c r) run hhistory rfl hcalls (heffect _)
      (h.writes hmoves hwrite hf hmethod' hknows ?_)
    rw [hserved]
    exact ⟨rfl, next, rfl, hnext⟩

theorem Explained.step {engine : E} (hL : Linearized o serves fails O Rel engine)
    (h : Explained o serves fails O Rel τ s) (hs : Step o serves s e s') :
    Explained o serves fails O Rel (τ ++ [e]) s' := by
  obtain ⟨κ, t, run, hhistory, hsim⟩ := h
  -- a step that shows nothing, and that is no effect
  have hquiet : ∀ {e : Label ι S} {s' : State ι S E}, seen fails e = none →
      Sim o serves fails O Rel s' t → Explained o serves fails O Rel (τ ++ [e]) s' :=
    fun he hsim' => ⟨κ, t, run, by simp [hhistory, history, he], hsim'⟩
  -- one that the object takes as well
  have hshown : ∀ {e : Label ι S} {s' : State ι S E} {shown t'}, seen fails e = some shown →
      Linear.Step O t (.seen shown) t' → Sim o serves fails O Rel s' t' →
      Explained o serves fails O Rel (τ ++ [e]) s' := by
    intro e s' shown t' he ht hsim'
    refine ⟨_, t', run.snoc ht, ?_, hsim'⟩
    rw [Linear.history_append, hhistory, history_append]
    simp [history, Linear.history, Linear.Moment.shown, he]
  cases hs with
  | @event e b hstep hnot =>
    cases hstep with
    | @raise flag hout => exact hshown rfl (.raise flag) (hsim.raise hL hout)
    | @enter g m hf =>
      exact hshown rfl (.enter ((hsim.stands g).of_idle hf).2.1) (hsim.enter hf (hL.bodies m _))
    | lock hf hlk => exact hquiet rfl (hsim.lock hf hlk)
    | unlock hf hlk => exact hquiet rfl (hsim.unlock hL hf hlk)
    | access hf => exact .access run hhistory hsim hL hf
    | @start g m c next hf =>
      refine hquiet rfl ⟨fun g' => ?_, hsim.settled, hsim.raised⟩
      obtain ⟨call, place, hmethod, hready, hfits⟩ := (hsim.stands g).of_frame hf
      obtain ⟨hreply, hlin⟩ := hready.of_idle
      by_cases hg : g' = g
      · subst hg
        exact stands_of_frame (s.base.put_frames_self g' _)
          ⟨hmethod, .of_lin hreply hlin, hfits⟩
      · exact (hsim.stands g').mono (s.base.put_frames_of_ne _ hg) rfl rfl rfl (fun _ _ _ => rfl)
          fun _ => ⟨rfl, rfl⟩
    | finish r hf => exact Bool.noConfusion hnot
    | @leave g m answer hf =>
      obtain ⟨call, place, hmethod, hready, hfits⟩ := (hsim.stands g).of_frame hf
      obtain ⟨hreply, hlin⟩ := hready.of_idle
      obtain rfl : call.method = m := hmethod
      cases place with
      | before | reading | writing => exact hlin.elim
      | after done =>
        obtain rfl : done = some answer := hlin
        refine hshown rfl (.leave hfits.2) ⟨fun g' => ?_, hsim.settled, hsim.raised⟩
        by_cases hg : g' = g
        · subst hg
          have hidle : (s.base.put g' none).frames g' = none := s.base.put_frames_self g' _
          simpa only [Stands, hidle] using ⟨hfits.1, by simp [Linear.State.put], hreply⟩
        · exact (hsim.stands g').mono (s.base.put_frames_of_ne _ hg) rfl rfl
            (by simp [Linear.State.put, hg]) (fun _ _ _ => rfl) fun _ => ⟨rfl, rfl⟩
  | serve hf hreply hserves => exact .serve run hhistory hsim hL hf hreply hserves
  | @finish g c r b hstep hreply =>
    cases hstep with
    | @finish _ m _ next _ hf =>
      refine hquiet rfl ⟨fun g' => ?_, hsim.settled, hsim.raised⟩
      obtain ⟨call, place, hmethod, hready, hfits⟩ := (hsim.stands g).of_frame hf
      rw [hreply] at hready
      obtain ⟨-, next', hcode, hlin⟩ := hready
      obtain ⟨-, hnexts⟩ := Prog.call.inj hcode
      obtain rfl := eq_of_heq hnexts
      by_cases hg : g' = g
      · subst hg
        exact stands_of_frame (s.base.put_frames_self g' _)
          ⟨hmethod, .of_lin (by simp [State.answer]) hlin, hfits⟩
      · exact (hsim.stands g').mono (s.base.put_frames_of_ne _ hg) (by simp [State.answer, hg]) rfl
          rfl (fun _ _ _ => rfl) fun _ => ⟨rfl, rfl⟩

theorem Linearized.linearizable {engine : E} (hL : Linearized o serves fails O Rel engine)
    (run : Runs o serves engine τ s) : Linearizable O (history fails τ) := by
  have h : Explained o serves fails O Rel τ s :=
    run.invariant ⟨[], .start O, .nil, rfl, Sim.first hL⟩ fun _ h hs => h.step hL hs
  obtain ⟨κ, t, run', hhistory, -⟩ := h
  exact ⟨κ, t, run', hhistory⟩

-- Reading a flag of one's own, with the effect of the method then, or with none.
theorem lin_load_writing {call : Call S φ} {flag : S.Flag} {next : Bool → Prog S}
    {flags : S.Flag → Bool} {engine : E} {x : O.State} {done : Option S.Answer}
    (hin : o.outside flag = false)
    (h : ∃ done' x', (∀ now, Effect O call now x done done' x') ∧
      Lin o serves fails O Rel call (next (flags flag)) (.writing flags engine x' done')) :
    Lin o serves fails O Rel call (.load flag next) (.writing flags engine x done) := by
  intro old hold
  obtain rfl := hold.own hin
  obtain ⟨done', x', heffect, hnext⟩ := h
  refine ⟨fun _ => rfl, done', x', fun now _ => heffect now, ?_⟩
  rw [id, Function.update_eq_self]
  exact hnext

end Rule

end Served

end Goroutine
