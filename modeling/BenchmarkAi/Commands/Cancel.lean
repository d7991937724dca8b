import BenchmarkAi.Commands.Binding
import BenchmarkAi.Commands.Integrity
/-!
# The arguments of a cancel

`cancel` has five parameters. Event and service are the callback's, the client id is the
event's unless the client gives another, and the action to cancel has to be given. As
the service is the first parameter and is given by name, a list of arguments never fits.
-/

open Lib Lib.Call

namespace BenchmarkAi.Commands

variable {ω ρ : Type}

def cancelArgs (e : CommandRequestEvent) (args : CommandArgs) : Option CancelCall :=
  if args.positionals ≠ [] then none
  else if ∀ kv ∈ args.keywords, kv.1 ∈ cancelSignature.names then
    (args.keywords.lookup "target_action_id").map fun target_action_id =>
      { client_id := (args.keywords.lookup "client_id").getD e.client_id
        target_action_id
        cascade := (args.keywords.lookup "cascade").any (· != "") }
  else none

def cancelKeywords (e : CommandRequestEvent) (kw : List (String × String)) : List (String × Value) :=
  let kw := assign "kafka_service" .kafkaService (assign "event" .event (kw.map fun kv => (kv.1, .str kv.2)))
  kw ++ if (kw.lookup "client_id").isNone then [("client_id", .str e.client_id)] else []

section cancelKeywords
variable {e : CommandRequestEvent} {args : CommandArgs} (h : args.positionals = [])
include h

theorem callArgs_cancel : callArgs cancelSignature e args = ([], cancelKeywords e args.keywords) := by
  -- of the fields of the event only the client id is a parameter
  have hf : (eventFields e).filter (fun kv => cancelSignature.names.contains kv.1) = [("client_id", .str e.client_id)] :=
    rfl
  have hfi (p : String × Value → Bool) :
      (eventFields e).filter (fun kv => cancelSignature.names.contains kv.1 && p kv) =
        [("client_id", .str e.client_id)].filter p := by
    rw [← hf, List.filter_filter]
    exact List.filter_congr fun kv _ => Bool.and_comm ..
  rw [callArgs_eq h, hfi, List.filter_cons]
  rfl

theorem lookup_cancelKeywords {n} (hn : n ∈ cancelSignature.names) :
    (cancelKeywords e args.keywords).lookup n = keyword e args n := by
  rw [← lookup_callArgs h hn, callArgs_cancel h]

theorem keys_cancelKeywords : (∀ kv ∈ cancelKeywords e args.keywords, kv.1 ∈ cancelSignature.names) ↔
    ∀ kv ∈ args.keywords, kv.1 ∈ cancelSignature.names := by
  have hk := @keys_callArgs cancelSignature e args h
  rw [callArgs_cancel h, List.forall_mem_map, List.forall_mem_map] at hk
  exact hk

end cancelKeywords

theorem lookup_kafka_service (e : CommandRequestEvent) (args : CommandArgs) :
    (callArgs cancelSignature e args).2.lookup "kafka_service" = some .kafkaService := by
  have hs : cancelSignature.names.contains "kafka_service" = true := rfl
  unfold callArgs
  dsimp only
  rw [hs, if_pos rfl, List.lookup_append, lookup_assign_self]
  rfl

theorem bind_keywords {e : CommandRequestEvent} {args : CommandArgs} (hpos : args.positionals = []) {vs} :
    cancelSignature.bind [] (cancelKeywords e args.keywords) = .ok vs ↔
      (∀ kv ∈ args.keywords, kv.1 ∈ cancelSignature.names) ∧ ∃ target, args.keywords.lookup "target_action_id" = some target ∧
        vs = [("kafka_service", .kafkaService), ("event", .event),
          ("client_id", .str ((args.keywords.lookup "client_id").getD e.client_id)), ("target_action_id", .str target),
          ("cascade", ((args.keywords.lookup "cascade").map .str).getD (.bool false))] := by
  have hs : (cancelKeywords e args.keywords).lookup "kafka_service" = some .kafkaService :=
    lookup_cancelKeywords hpos (by decide)
  have he : (cancelKeywords e args.keywords).lookup "event" = some .event := lookup_cancelKeywords hpos (by decide)
  have hc : (cancelKeywords e args.keywords).lookup "client_id" =
      some (.str ((args.keywords.lookup "client_id").getD e.client_id)) := by
    rw [lookup_cancelKeywords hpos (by decide)]
    unfold keyword
    cases args.keywords.lookup "client_id" <;> rfl
  have hta : (cancelKeywords e args.keywords).lookup "target_action_id" =
      (args.keywords.lookup "target_action_id").map .str :=
    (lookup_cancelKeywords hpos (by decide)).trans Option.or_none
  have hca : (cancelKeywords e args.keywords).lookup "cascade" = (args.keywords.lookup "cascade").map .str :=
    (lookup_cancelKeywords hpos (by decide)).trans Option.or_none
  have hn : (∀ kv ∈ cancelKeywords e args.keywords, cancelSignature.accepts kv.1 = true) ↔
      ∀ kv ∈ args.keywords, kv.1 ∈ cancelSignature.names := by
    rw [← keys_cancelKeywords hpos (e := e)]
    exact forall₂_congr fun kv _ => accepts_named (by simp) kv.1
  have hv : bindParams cancelSignature.params [] (cancelKeywords e args.keywords) = .ok vs ↔
      ∃ target, args.keywords.lookup "target_action_id" = some target ∧
        vs = [("kafka_service", .kafkaService), ("event", .event),
          ("client_id", .str ((args.keywords.lookup "client_id").getD e.client_id)), ("target_action_id", .str target),
          ("cascade", ((args.keywords.lookup "cascade").map .str).getD (.bool false))] := by
    unfold cancelSignature
    simp only [bindParams_cons_nil, bindParams_nil, Param.keyword, hs, he, hc, hta, hca,
      Option.some.injEq, Option.or_none, Option.or_some, Option.map_eq_some_iff]
    constructor
    · rintro ⟨_, _, rfl, ⟨_, _, rfl, ⟨_, _, rfl, ⟨_, _, ⟨target, ht, rfl⟩, ⟨_, _, rfl, rfl, rfl⟩, rfl⟩, rfl⟩, rfl⟩, rfl⟩
      exact ⟨target, ht, rfl⟩
    · rintro ⟨target, ht, rfl⟩
      exact ⟨_, _, rfl, ⟨_, _, rfl, ⟨_, _, rfl, ⟨_, _, ⟨target, ht, rfl⟩, ⟨_, _, rfl, rfl, rfl⟩, rfl⟩, rfl⟩, rfl⟩, rfl⟩
  have hb : cancelSignature.bind [] (cancelKeywords e args.keywords) = .ok vs ↔ 0 ≤ cancelSignature.params.length ∧
        (∀ kv ∈ cancelKeywords e args.keywords, cancelSignature.accepts kv.1 = true) ∧
          bindParams cancelSignature.params [] (cancelKeywords e args.keywords) = .ok vs := bind_fixed
  rw [hb, hn, hv]
  exact and_iff_right (Nat.zero_le _)

theorem bind_positionals {e} {args : CommandArgs} (hpos : args.positionals ≠ []) {vs} :
    cancelSignature.bind (callArgs cancelSignature e args).1 (callArgs cancelSignature e args).2 ≠ .ok vs := by
  intro hok
  obtain ⟨-, -, hok⟩ := bind_fixed.1 hok
  obtain ⟨x, xs, hx⟩ := List.exists_cons_of_ne_nil hpos
  have h₁ : (callArgs cancelSignature e args).1 = .str x :: xs.map .str := by
    unfold callArgs
    rw [hx]
    rfl
  rw [h₁, bindParams_cons] at hok
  cases hok.1.symm.trans (lookup_kafka_service e args)

/-- `cancel` is called with `cancelArgs`, and not at all where there are none. -/
theorem callMethod_cancel (py : Python ρ) (cls : CmdClass ω ρ) (e : CommandRequestEvent) (command : String)
    (args : CommandArgs) (s : CmdState ω ρ) :
    (callMethod py cls e command .cancel cancelSignature (callArgs cancelSignature e args) s).2.world =
      match cancelArgs e args with
      | some c => (cls.cancel e c (s.obj.attrs.lookup cls.reference) s.world).2
      | none => s.world := by
  unfold callMethod cancelArgs
  by_cases hpos : args.positionals = []
  · rw [if_neg (not_not.2 hpos), callArgs_cancel hpos]
    split
    · rename_i err herr
      have hno (target : String) (hk : ∀ kv ∈ args.keywords, kv.1 ∈ cancelSignature.names)
          (ht : args.keywords.lookup "target_action_id" = some target) : False := by
        cases herr.symm.trans ((bind_keywords hpos).2 ⟨hk, target, ht, rfl⟩)
      by_cases hk : ∀ kv ∈ args.keywords, kv.1 ∈ cancelSignature.names
      · rw [if_pos hk]
        cases ht : args.keywords.lookup "target_action_id" with
        | none => rfl
        | some target => exact (hno target hk ht).elim
      · rw [if_neg hk]
    · rename_i values hok
      obtain ⟨hk, target, ht, rfl⟩ := (bind_keywords hpos).1 hok
      rw [if_pos hk, ht]
      cases args.keywords.lookup "cascade" <;> rfl
  · rw [if_pos hpos]
    split
    · rfl
    · rename_i hok
      exact absurd hok (bind_positionals hpos)

/-- On an intact object a cancel is the `cancel` of the class, with the object that the
instance was created with. -/
theorem world_cancel {py} {cls : CmdClass ω ρ} {topic} {s : CmdState ω ρ} (h : Intact cls s.obj)
    {e : CommandRequestEvent} {args} (he : e.payload = some ⟨"cancel", args⟩) :
    (handleEvent py cls topic s e).world = match cancelArgs e args with
      | some c => (cls.cancel e c (some .reference) s.world).2
      | none => s.world := by
  have hg : s.obj.getattr "cancel" = some (.method .cancel) := getattr_eq h.cancel
  have hc := callMethod_cancel py cls e "cancel" args s
  rw [h.reference] at hc
  rw [← hc]
  have hf (r : Response ρ) (s : CmdState ω ρ) : { s with responses := s.responses ++ [r] }.world = s.world := rfl
  exact handle_keeps hf he hg

end BenchmarkAi.Commands
