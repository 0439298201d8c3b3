import Flotilla.Proofs.Fleet.Programs

/-!
# Whoever leaves job records alone

Only the fleet itself is to write under the keys of job records. A program spares them when no
commit that it can ask for writes such a key, whatever it is answered (`Program.Spares`). What
spares the records leaves each of them as it is, and what it leaves in the chronicle tells of no
record (`Fleet.Apart`).
-/

namespace Flotilla

/-- Whether a store key is one of job records. -/
def IsJobKey (key : String) : Prop := startsWith Job.keyRoot key = true

instance (key : String) : Decidable (IsJobKey key) :=
  inferInstanceAs (Decidable (startsWith Job.keyRoot key = true))

/-- The key of a job is that of a job record. -/
theorem isJobKey_key (id : JobId) : IsJobKey (Job.key id) := by
  rw [IsJobKey, startsWith, Job.key, String.toList_append, List.isPrefixOf_iff_prefix]
  exact List.prefix_append _ _

/-- Writes that change no job record. -/
def WritesSpare (writes : List Write) : Prop := ∀ w ∈ writes, ¬IsJobKey w.key

/-- Writes that change no job record write to none of their keys. -/
theorem WritesSpare.key_ne {writes : List Write} (h : WritesSpare writes) {key : String}
    (hkey : IsJobKey key) : ∀ w ∈ writes, w.key ≠ key :=
  fun w hw he => h w hw (he ▸ hkey)

/-- A question to the store that changes no job record. -/
def StoreAsk.Spares : StoreAsk → Prop
  | .commit tx => WritesSpare tx.toWrites
  | .commitBehind writes _ => WritesSpare writes
  | .now | .begin | .read _ => True

/-- A program that changes no job record, whatever it is answered. The store only counts with
answers that some store gives. -/
def Program.Spares {α : Type} : Program Stepping α → Prop
  | .done _ => True
  | .ask (.storing (.store q)) next => q.Spares ∧ ∀ now m, Spares (next (q.answer now m).1)
  | .ask (.storing (.sleep _)) next => Spares (next ())
  | .ask (.send ..) next => ∀ answer, Spares (next answer)
  | .ask (.await _) next => ∀ answer, Spares (next answer)
  | .ask .stopSelf next => ∀ answer, Spares (next answer)
  | .ask (.note _) next => Spares (next ())

/-- An event that tells of no job record. -/
def Event.Spares : Event → Prop
  | .committed _ writes => WritesSpare writes
  | .recorded .. | .noticed .. => False
  | .published _ | .delivered .. | .noted .. | .settled .. | .closed => True

namespace Fleet

/-- The job records, and what is told of them, are as they were. -/
structure Apart (f g : Fleet) : Prop where
  chronicle : ∃ events, g.chronicle = f.chronicle ++ events ∧ ∀ e ∈ events, e.2.Spares
  unread : g.unread = f.unread
  records : ∀ key, IsJobKey key →
    g.transactions.store.store.read key = f.transactions.store.store.read key ∧
      g.transactions.store.store.lastVersion key = f.transactions.store.store.lastVersion key

variable {f g h : Fleet}

/-- Where the store stays and nothing but other things are told, job records are as they were. -/
theorem Apart.of_store_eq (hstore : g.transactions.store.store = f.transactions.store.store)
    (hunread : g.unread = f.unread) {events : List (Nat × Event)}
    (hchronicle : g.chronicle = f.chronicle ++ events) (hevents : ∀ e ∈ events, e.2.Spares) :
    Apart f g where
  chronicle := ⟨events, hchronicle, hevents⟩
  unread := hunread
  records key _ := by rw [hstore]; exact ⟨rfl, rfl⟩

/-- Where store, notices and chronicle stay, job records are as they were. -/
theorem Apart.of_eq (hstore : g.transactions.store.store = f.transactions.store.store)
    (hunread : g.unread = f.unread) (hchronicle : g.chronicle = f.chronicle) : Apart f g :=
  .of_store_eq hstore hunread (hchronicle.trans (List.append_nil _).symm) nofun

/-- Where nothing happens, job records are as they were. -/
theorem Apart.refl (f : Fleet) : Apart f f := .of_eq rfl rfl rfl

/-- Two steps that leave job records as they were do so together. -/
theorem Apart.trans (hfg : Apart f g) (hgh : Apart g h) : Apart f h where
  chronicle := Chronicle.append_trans hfg.chronicle hgh.chronicle
  unread := hgh.unread.trans hfg.unread
  records key hkey := by
    obtain ⟨hread, hversion⟩ := hfg.records key hkey
    obtain ⟨hread', hversion'⟩ := hgh.records key hkey
    exact ⟨hread'.trans hread, hversion'.trans hversion⟩

/-- Answering a question that changes no job record. -/
theorem apart_answerStore (f : Fleet) {q : StoreAsk} (hq : q.Spares) :
    Apart f (f.answerStore q).2 := by
  cases q with
  | now => exact .of_eq rfl rfl rfl
  | begin => exact .of_eq rfl rfl rfl
  | read key => exact .of_eq (f.transactions.store.store_read key) rfl rfl
  | commitBehind writes reads =>
    refine ⟨⟨[], (List.append_nil _).symm, nofun⟩, rfl, ?_⟩
    exact fun key hkey => f.transactions.store.commitBehind_of_ne reads (hq.key_ne hkey)
  | commit tx =>
    have hrecords (key : String) (hkey : IsJobKey key) :=
      f.transactions.store.commit_of_ne tx.reads (hq.key_ne hkey)
    unfold answerStore StoreAsk.answer Transactions.commit
    dsimp only
    generalize f.transactions.store.commit tx.toWrites tx.reads = r at hrecords ⊢
    obtain ⟨result, store⟩ := r
    cases result with
    | error fault => exact ⟨⟨[], (List.append_nil _).symm, nofun⟩, rfl, hrecords⟩
    | ok =>
      refine ⟨⟨[(f.now, .committed tx.id tx.toWrites)], rfl, ?_⟩, rfl, hrecords⟩
      intro e he
      obtain rfl := List.mem_singleton.1 he
      exact hq

/-- Sending a request leaves job records as they were. -/
theorem apart_send (f : Fleet) (request : Request) (timeout : Nat) :
    Apart f (f.send request timeout).2 := by
  obtain ⟨agenda, broker, events, hsend, hevents⟩ := f.send_eq request timeout
  rw [hsend]
  refine .of_store_eq rfl rfl rfl fun e he => ?_
  obtain ⟨m, hm⟩ := hevents e he
  rw [hm]
  trivial

/-- Asking for a stop leaves job records as they were. -/
theorem apart_stop (f : Fleet) (id : JobId) : Apart f (f.stop id).2 := by
  rcases f.stop_cases id with ⟨fault, m, hstop, hm⟩ | ⟨e, -, -, hstop⟩ | ⟨e, agenda, -, -, hstop⟩
  · rw [hstop]
    exact .of_eq hm rfl rfl
  · rw [hstop]
    exact .refl f
  · rw [hstop]
    exact .of_eq rfl rfl rfl

/-- What a program leaves behind when it has to wait spares job records if the program does. -/
def SparesAfter {α : Type} : Suspension α ⊕ α → Prop
  | .inl (.reply _ next) => ∀ answer, (next answer).Spares
  | .inl (.timer _ next) => (next ()).Spares
  | .inr _ => True

/-- A program that spares job records leaves them alone, and so does what is left of it. -/
theorem apart_run {α : Type} (id : JobId) (target : String) {program : Program Stepping α}
    (hp : program.Spares) (f : Fleet) :
    Apart f (f.run id target program).2 ∧ SparesAfter (f.run id target program).1 := by
  induction program generalizing f with
  | done value => exact ⟨.refl f, trivial⟩
  | ask question next ih =>
    cases question with
    | storing q =>
      cases q with
      | store q =>
        obtain ⟨hapart, hafter⟩ := ih _ (hp.2 f.now f.transactions) (f.answerStore q).2
        exact ⟨(f.apart_answerStore hp.1).trans hapart, hafter⟩
      | sleep span =>
        rw [run]
        split
        · exact ih () hp f
        · exact ⟨.refl f, hp⟩
    | send command payload timeout =>
      obtain ⟨hapart, hafter⟩ := ih _ (hp _) _
      exact ⟨(f.apart_send _ _).trans hapart, hafter⟩
    | await key =>
      rw [run]
      split
      · exact ih _ (hp _) f
      · exact ⟨.refl f, hp⟩
    | stopSelf =>
      obtain ⟨hapart, hafter⟩ := ih _ (hp _) _
      exact ⟨(f.apart_stop id).trans hapart, hafter⟩
    | note note =>
      obtain ⟨hapart, hafter⟩ := ih () hp (f.chronicled (.noted id note))
      have hnote : Apart f (f.chronicled (.noted id note)) := by
        refine .of_store_eq rfl rfl rfl fun e he => ?_
        obtain rfl := List.mem_singleton.1 he
        trivial
      exact ⟨hnote.trans hapart, hafter⟩

end Fleet

end Flotilla
