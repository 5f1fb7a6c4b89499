import NonceSearch.Proofs.Searchers
import NonceSearch.Proofs.WordStores

/-!
# What the requests of a scan achieve

From the reset on, the core belongs to the scan: nobody else gives it commands. So each request finds
it as the one before has left it, and leaves it a step further: cleared, ready, loaded, searching. A
request is said to achieve something if that comes out whatever the searchers do while it holds the
lock, and whenever between the beginning and the end of the call its accesses are made.
-/

namespace NonceSearch

variable (config : CoreConfig) (work : WorkItem)

namespace Core

/-! ### From the reset to the start -/

/-- The core has been reset and is ready by the deadline. -/
structure Cleared (deadline : Nat) (core : Core) : Prop where
  job : core.job = none
  halted : core.halted = false
  readiness : core.status = .ready ∧ core.readyAt = none ∨
    core.status = .empty ∧ ∃ due, core.readyAt = some due ∧ due ≤ deadline

variable {config work} {core : Core}

end Core

namespace Rig

variable {config work}

theorem Kept.cleared (deadline : Nat) : Kept config work (Core.Cleared deadline) where
  searching core next h hnext := by
    rw [hnext.idle h.job]
    exact h
  refreshing core now h := by
    unfold Core.refresh
    split
    · split
      · exact ⟨h.job, h.halted, .inl ⟨rfl, rfl⟩⟩
      · exact h
    · exact h
  reporting core next message started h hepoch _ := by
    obtain ⟨-, hready, hstatus⟩ := hepoch.shown
    rcases h.readiness with ⟨hr, -⟩ | ⟨-, due, hdue, -⟩
    · rw [hr] at hstatus
      exact absurd hstatus (by decide)
    · simp [hready] at hdue

theorem Kept.finished : Kept config work (Core.Over config work) where
  searching core next h hnext := by
    rw [hnext.idle h.job]
    exact h
  refreshing core now h := by
    rw [Core.refresh_of_readyAt h.readyAt]
    exact h
  reporting core next message started h _ hchange := h.change hchange

theorem Kept.hunted : Kept config work (Core.Hunted config work) where
  searching core next h hnext := by
    rcases h with ⟨n, hn⟩ | hover
    · rcases hnext.underway n hn with ⟨later, -, hlater⟩ | hover
      · exact .inl ⟨later, hlater⟩
      · exact .inr hover
    · exact .inr (Kept.finished.searching core next hover hnext)
  refreshing core now h := by
    rcases h with ⟨n, hn⟩ | hover
    · rw [Core.refresh_of_readyAt hn.readyAt]
      exact .inl ⟨n, hn⟩
    · exact .inr (Kept.finished.refreshing core now hover)
  reporting core next message started h hepoch hchange := by
    rcases h with ⟨n, hn⟩ | hover
    · have hjob := hepoch.shown.1
      simp [hn.job] at hjob
    · exact .inr (hover.change hchange)

end Rig

/-! ### Storing a string -/

namespace Bus

section Stores

variable {config} {work} {times : Nat → Prop} {rely : Core → Core → Prop} {stage : Nat → Core → Prop}

/-- Words are written one after another, each brings the core a stage further, and the others leave it
    there. -/
theorem secures_puts {puts : Nat → List UInt32 → Bus Unit} {address : Nat → Nat}
    (hnil : ∀ k, puts k [] = .done ())
    (hcons : ∀ k value values, puts k (value :: values) = .write (address k) value (puts (k + 1) values))
    {count : Nat} {values : List UInt32} {core : Core} (h : stage count core)
    (hquiet : ∀ k core core', stage k core → rely core core' → stage k core')
    (hstep : ∀ i (hi : i < values.length) core now, stage (count + i) core →
      stage (count + i + 1) (core.write config now (address (count + i)) values[i])) :
    (puts count values).Secures config times rely
      (fun _ core => stage (count + values.length) core) core := by
  induction values generalizing count core with
  | nil =>
    rw [hnil]
    exact fun core' hrely => hquiet _ _ _ h hrely
  | cons value values ih =>
    rw [hcons]
    intro core' now _ hrely
    have hfirst := hstep 0 (by simp) core' now (hquiet _ _ _ h hrely)
    apply (@ih (count + 1) _ hfirst ?_).mono
    · intro _ core hstage
      rwa [Nat.add_right_comm, Nat.add_assoc] at hstage
    · intro i hi core now hstage
      have hnext := hstep (i + 1) (by simpa using hi) core now
      rw [List.getElem_cons_succ, ← Nat.add_assoc, Nat.add_right_comm count] at hnext
      exact hnext hstage

end Stores

section Strings

variable {config} {work} {times : Nat → Prop} {n : Nat}

/-- A string on its way into a register of an idle core: so many of its words have been stored. -/
def Storing (store : Nat → Bytes n → Core) (target : Bytes n) (count : Nat) (core : Core) : Prop :=
  ∃ bytes, core = store count bytes ∧ Bytes.Agree count bytes target

variable {store : Nat → Bytes n → Core}

theorem Storing.quiet {target : Bytes n} (hjob : ∀ k bytes, (store k bytes).job = none) {k : Nat}
    {core core' : Core} (h : Storing store target k core) (hrely : core.Meanwhile config work core') :
    Storing store target k core' := by
  obtain ⟨bytes, rfl, hagree⟩ := h
  rw [hrely.idle (hjob k bytes)]
  exact ⟨bytes, rfl, hagree⟩

theorem Storing.next {target : Bytes n} {k : Nat} {core next : Core} (h : Storing store target k core)
    (hk : k < n / 4)
    (hwrite : ∀ bytes, core = store k bytes → next = store (k + 1) (bytes.putWord k target.words[k])) :
    Storing store target (k + 1) next := by
  obtain ⟨bytes, hcore, hagree⟩ := h
  exact ⟨_, hwrite bytes hcore, hagree.putWord hk⟩

theorem Storing.stored {target : Bytes n} {core : Core} {count : Nat}
    (h : Storing store target count core) (hcount : n ≤ 4 * count) : core = store count target := by
  obtain ⟨bytes, hcore, hagree⟩ := h
  rw [hcore, hagree.eq hcount]

end Strings

end Bus

/-! ### Requests -/

namespace Driver

/-- A request that is made on a core as `pre` says is answered, and leaves a core as `post` says of the
    time that it has taken. -/
def Achieves (asked : Request) (pre : Core → Prop) (post : Nat → Nat → Reply → Core → Prop) : Prop :=
  ∃ program, Driver.program config.layout asked = .ok program ∧ ∀ since ends core, pre core →
    program.Secures config (fun moment => since ≤ moment ∧ moment ≤ ends) (Core.Meanwhile config work)
      (post since ends) core

variable {config work}

end Driver

end NonceSearch
