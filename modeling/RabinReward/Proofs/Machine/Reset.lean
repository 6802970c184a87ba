import RabinReward.Proofs.Machine.Construction
import RabinReward.Proofs.Predicate.Visit
import RabinReward.Machine.Tick
import RabinReward.Registry
import RabinReward.Robustness.Binary

/-!
# Resets

An `Operation` is a machine at work on a host, and an `Event` is what happens to it. Operations that
stand alike on hosts that show the same are observed alike, whatever their sensors count
(`Alike.observe`). A reset moves a machine to its start and changes nothing but those counts, so
from there on it is observed as a fresh machine is. The counts say the rest: the reset is called
once for each place below a guard, and nowhere else.
-/

namespace RabinReward

namespace Machine

/-- Where a machine stands and what its host has. -/
structure Operation where
  snapshot : Snapshot
  sensors : Array Sensor
  board : Blackboard

inductive Event where
  /-- The host sets a sensor. -/
  | sense (s : SensorId) (x : Robustness)
  /-- The host changes its board. -/
  | post (board : Blackboard)
  /-- A tick on what the guards show. -/
  | tick
  /-- A tick on given values of the guards. -/
  | row (values : List Robustness)
  | reset

/-- What an event pays, if it is a tick, and what it leads to. -/
def react (m : Machine) (ρ : Rounding) (o : Operation) : Event → Option Robustness × Operation
  | .sense s x => (none, { o with sensors := o.sensors.modify s (Sensor.setValue x) })
  | .post board => (none, { o with board })
  | .tick =>
    let (reward, snapshot) := m.tick ρ (.ofHost o.sensors o.board) o.snapshot
    (some reward, { o with snapshot })
  | .row values =>
    let (reward, snapshot) := m.step ρ values o.snapshot
    (some reward, { o with snapshot })
  | .reset =>
    let (snapshot, sensors) := m.reset o.sensors
    (none, { o with snapshot, sensors })

def after (m : Machine) (ρ : Rounding) (o : Operation) (events : List Event) : Operation :=
  events.foldl (fun o e => (m.react ρ o e).2) o

/-- What each event pays and the snapshot after it. -/
def observe (m : Machine) (ρ : Rounding) (o : Operation) :
    List Event → List (Option Robustness × Snapshot)
  | [] => []
  | e :: events =>
    let (reward, o) := m.react ρ o e
    (reward, o.snapshot) :: m.observe ρ o events

/-- The same but for what the sensors count. -/
structure Alike (o o' : Operation) : Prop where
  snapshot : o.snapshot = o'.snapshot
  values : o.sensors.map Sensor.value = o'.sensors.map Sensor.value
  board : o.board = o'.board

variable {m : Machine} {ρ : Rounding} {o o' : Operation}

theorem ofHost_congr {sensors sensors' : Array Sensor}
    (h : sensors.map Sensor.value = sensors'.map Sensor.value) (board : Blackboard) :
    Readings.ofHost sensors board = Readings.ofHost sensors' board := by
  have hsensor (s : SensorId) : sensors[s]?.map Sensor.value = sensors'[s]?.map Sensor.value := by
    rw [← Array.getElem?_map, ← Array.getElem?_map, h]
  unfold Readings.ofHost
  simp only [hsensor]

theorem map_value_modify (sensors : Array Sensor) (s : SensorId) (x : Robustness) :
    (sensors.modify s (Sensor.setValue x)).map Sensor.value =
      (sensors.map Sensor.value).modify s fun _ => x := by
  apply Array.ext_getElem?
  intro i
  rw [Array.getElem?_map, Array.getElem?_modify, Array.getElem?_modify, Array.getElem?_map]
  split
  · rw [Option.map_map, Option.map_map]
    rfl
  · rfl

theorem Alike.react (h : Alike o o') (e : Event) :
    (m.react ρ o e).1 = (m.react ρ o' e).1 ∧ Alike (m.react ρ o e).2 (m.react ρ o' e).2 := by
  obtain ⟨hsnapshot, hvalues, hboard⟩ := h
  cases e with
  | sense s x =>
    refine ⟨rfl, hsnapshot, ?_, hboard⟩
    simp only [Machine.react, map_value_modify, hvalues]
  | post board => exact ⟨rfl, hsnapshot, hvalues, rfl⟩
  | tick =>
    have htick : m.tick ρ (.ofHost o.sensors o.board) o.snapshot =
        m.tick ρ (.ofHost o'.sensors o'.board) o'.snapshot := by
      rw [ofHost_congr hvalues, hboard, hsnapshot]
    exact ⟨congrArg (some ∘ Prod.fst) htick, congrArg Prod.snd htick, hvalues, hboard⟩
  | row values =>
    have hstep : m.step ρ values o.snapshot = m.step ρ values o'.snapshot := by rw [hsnapshot]
    exact ⟨congrArg (some ∘ Prod.fst) hstep, congrArg Prod.snd hstep, hvalues, hboard⟩
  | reset =>
    refine ⟨rfl, rfl, ?_, hboard⟩
    simp only [Machine.react, reset, map_value_resetAll, hvalues]

theorem Alike.observe (h : Alike o o') (events : List Event) :
    m.observe ρ o events = m.observe ρ o' events := by
  induction events generalizing o o' with
  | nil => rfl
  | cons e events ih =>
    obtain ⟨hreward, hnext⟩ := h.react (m := m) (ρ := ρ) e
    simp only [Machine.observe]
    rw [hreward, hnext.snapshot, ih hnext]

/-- A machine that has been reset stands alike to a fresh one on a host that shows the same. -/
theorem alike_reset {fresh : Array Sensor}
    (hfresh : fresh.map Sensor.value = o.sensors.map Sensor.value) :
    Alike (m.react ρ o .reset).2 ⟨m.start, fresh, o.board⟩ :=
  ⟨rfl, (map_value_resetAll o.sensors m.resetVisits).trans hfresh.symm, rfl⟩

/-! ## The sensors -/

open Predicate

/-- A sensor that is stored at one place is reset once, one that is stored nowhere not at all. -/
theorem getElem?_reset (hforward : NoForwarding m.guards) {calls : List (Place × Predicate)}
    (hcalls : List.Forall₂ CalledAt m.resetVisits calls) (honce : (calls.map Prod.fst).Nodup)
    (hstored : ∀ x, x ∈ calls ↔ Stored m.guards x) (sensors : Array Sensor) (s : SensorId) :
    ((∀ a, ¬Stored m.guards (a, .sensor s)) → (m.reset sensors).2[s]? = sensors[s]?) ∧
    ((∃! a, Stored m.guards (a, .sensor s)) →
      (m.reset sensors).2[s]? = sensors[s]?.map Sensor.reset) := by
  have hcount : (m.reset sensors).2[s]? = sensors[s]?.map fun x =>
      { x with resets := x.resets + calls.countP fun c => c.2 = .sensor s } := by
    rw [← count_resetTarget hcalls fun c hc => hforward c ((hstored c).1 hc)]
    exact getElem?_resetAll sensors m.resetVisits s
  rw [hcount]
  constructor
  · intro hnone
    have hzero : calls.countP (fun c => c.2 = .sensor s) = 0 := by
      rw [List.countP_eq_zero]
      rintro ⟨a, p⟩ hc hp
      obtain rfl : p = .sensor s := of_decide_eq_true hp
      exact hnone a ((hstored _).1 hc)
    simp only [hzero, Nat.add_zero, Option.map_id']
  · rintro ⟨a, ha, hunique⟩
    have hone : calls.countP (fun c => c.2 = .sensor s) = 1 := by
      rw [← List.count_eq_one_of_mem (honce.of_map _) ((hstored _).2 ha), List.count]
      refine List.countP_congr fun c hc => ?_
      rw [decide_eq_true_eq, beq_iff_eq]
      constructor
      · intro hp
        obtain ⟨b, _⟩ := c
        obtain rfl := hp
        rw [hunique b ((hstored _).1 hc)]
      · rintro rfl
        rfl
    rw [hone]
    rfl

/-! ## Main statement -/

/-- **A reset is as good as new and resets each predicate once.** Whatever has happened to a
machine, a reset moves it to its start, and whatever happens after that, it pays and moves as a
fresh machine does on a host that shows the same. Moreover, if no handle merely forwards to another
handle, the calls that the reset makes are one for each place where a predicate is stored below a
guard, also below the guards of states that cannot be reached. So a sensor stored at one place is
reset once, however many guards and operators share it, and one stored nowhere is not reset. -/
theorem reset_renews {states : List (State Predicate)} {initial : Nat} {pairs : List RabinPair}
    {config : Config} {m : Machine} (h : ofStates states initial pairs config = .ok m)
    (ρ : Rounding) :
    (∀ (sensors : Array Sensor) (board : Blackboard) (history : List Event),
      let o := m.after ρ ⟨m.start, sensors, board⟩ history
      let o' := (m.react ρ o .reset).2
      o'.snapshot = ⟨initial, .running, 0, 0, 0⟩ ∧ o'.snapshot = m.start ∧
      ∀ fresh : Array Sensor, fresh.map Sensor.value = o.sensors.map Sensor.value →
        ∀ events, m.observe ρ o' events = m.observe ρ ⟨m.start, fresh, o.board⟩ events) ∧
    (NoForwarding m.guards → Coherent m.guards →
      (∃ calls, List.Forall₂ CalledAt m.resetVisits calls ∧ (calls.map Prod.fst).Nodup ∧
        ∀ x, x ∈ calls ↔ Stored m.guards x) ∧
      ∀ (sensors : Array Sensor) (s : SensorId),
        ((∀ a, ¬Stored m.guards (a, .sensor s)) → (m.reset sensors).2[s]? = sensors[s]?) ∧
        ((∃! a, Stored m.guards (a, .sensor s)) →
          (m.reset sensors).2[s]? = sensors[s]?.map Sensor.reset)) := by
  obtain ⟨-, -, rfl, -, -⟩ := ofStates_eq_ok_iff.1 h
  refine ⟨fun sensors board history => ⟨rfl, rfl, fun fresh hfresh events => ?_⟩,
    fun hforward hroots => ?_⟩
  · exact (alike_reset hfresh).observe events
  · obtain ⟨calls, hcalls, honce, hstored⟩ := visit_calls hforward hroots
    exact ⟨⟨calls, hcalls, honce, hstored⟩, getElem?_reset hforward hcalls honce hstored⟩

/-- A machine with a state that cannot be reached. The guards of `relay` share two handles, and a
composite of its last state holds an operand in place. -/
def relay : Machine :=
  let door : Predicate := .shared 0 (.sensor 0)
  let closed : Predicate := .shared 1 (.not (.sensor 1))
  ⟨[⟨"", [⟨door, 1, .empty⟩, ⟨closed, 0, .empty⟩]⟩,
      ⟨"", [⟨closed, 1, .ofList ["1"]⟩]⟩,
      ⟨"", [⟨.shared 2 (.and door (.not (.sensor 2))), 2, .empty⟩]⟩],
    [⟨.empty, .ofList ["1"]⟩], 0, #[.finite 1, .finite 0, .infinite], 1, .default⟩

def relayPlaces : List (Place × Predicate) :=
  [(.handle 0, .sensor 0), (.handle 1, .not (.sensor 1)), (.operand (.handle 1) 0, .sensor 1),
    (.handle 2, .and (.shared 0 (.sensor 0)) (.not (.sensor 2))),
    (.operand (.handle 2) 1, .not (.sensor 2)), (.operand (.operand (.handle 2) 1) 0, .sensor 2)]

theorem mem_relayPlaces {x : Place × Predicate} (h : Stored relay.guards x) : x ∈ relayPlaces :=
  h.mem (by decide) (by decide)

def relayMoved : Operation :=
  relay.after .single ⟨relay.start, #[⟨-1, 0⟩, ⟨-1, 0⟩, ⟨1, 0⟩], .empty⟩
    [.tick, .sense 0 1, .tick, .row [1]]

theorem reset_renews_relay :
    ofStates relay.states 0 relay.pairs .default = .ok relay ∧
    NoForwarding relay.guards ∧ Coherent relay.guards ∧
    relayMoved.snapshot.active = 1 ∧ relayMoved.snapshot.ticks = 3 ∧
    (relay.react .single relayMoved .reset).2.snapshot = relay.start ∧
    (∀ events, relay.observe .single (relay.react .single relayMoved .reset).2 events =
      relay.observe .single ⟨relay.start, relayMoved.sensors, relayMoved.board⟩ events) ∧
    (∃ calls, List.Forall₂ CalledAt relay.resetVisits calls ∧ (calls.map Prod.fst).Nodup ∧
      ∀ x, x ∈ calls ↔ Stored relay.guards x) ∧
    (relay.reset relayMoved.sensors).2[0]? = relayMoved.sensors[0]?.map Sensor.reset ∧
    (relay.reset relayMoved.sensors).2[2]? = relayMoved.sensors[2]?.map Sensor.reset := by
  have hmade : ofStates relay.states 0 relay.pairs .default = .ok relay := rfl
  have hforward : NoForwarding relay.guards := fun x hx =>
    (show ∀ x ∈ relayPlaces, x.2.identity = none by decide) x (mem_relayPlaces hx)
  have hplace : ∀ x ∈ relayPlaces, ∀ y ∈ relayPlaces, x.1 = y.1 ∨ x.2 = y.2 → x = y := by decide
  have hroots : Coherent relay.guards := fun id p q hp hq =>
    congrArg Prod.snd (hplace _ (mem_relayPlaces hp) _ (mem_relayPlaces hq) (.inl rfl))
  have hunique {s : SensorId} {a : Place} (ha : Stored relay.guards (a, .sensor s)) :
      ∃! a, Stored relay.guards (a, .sensor s) :=
    ⟨a, ha, fun b hb =>
      congrArg Prod.fst (hplace _ (mem_relayPlaces hb) _ (mem_relayPlaces ha) (.inr rfl))⟩
  obtain ⟨hrenewed, honce⟩ := reset_renews hmade .single
  obtain ⟨-, hstart, hobserve⟩ := hrenewed #[⟨-1, 0⟩, ⟨-1, 0⟩, ⟨1, 0⟩] .empty
    [.tick, .sense 0 1, .tick, .row [1]]
  obtain ⟨hcalls, hsensors⟩ := honce hforward hroots
  have hdoor : Stored relay.guards (.handle 0, .sensor 0) :=
    Stored.root (show relay.guards[0]? = some (.shared 0 (.sensor 0)) from rfl)
  have hguard : Stored relay.guards (.handle 2, .and (.shared 0 (.sensor 0)) (.not (.sensor 2))) :=
    Stored.root (show relay.guards[3]? =
      some (.shared 2 (.and (.shared 0 (.sensor 0)) (.not (.sensor 2)))) from rfl)
  have hnot : Stored relay.guards (.operand (.handle 2) 1, .not (.sensor 2)) :=
    Stored.part hguard (show (parts _)[1]? = some (.not (.sensor 2)) from rfl)
  have hlast : Stored relay.guards (.operand (.operand (.handle 2) 1) 0, .sensor 2) :=
    Stored.part hnot (show (parts _)[0]? = some (.sensor 2) from rfl)
  exact ⟨hmade, hforward, hroots, by decide +kernel, by decide +kernel, hstart,
    hobserve _ rfl, hcalls, (hsensors _ 0).2 (hunique hdoor), (hsensors _ 2).2 (hunique hlast)⟩

end Machine

end RabinReward
