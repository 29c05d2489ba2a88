import MathMarkup.History.Query
import MathMarkup.Json.Access

/-!
# Records and queries as JSON

All fields of a record, and of a query, under their names. What is missing on reading is empty.
-/

namespace MathMarkup.History

/-- Reads a record. -/
def Record.ofJson (j : Json) : Record :=
  let text (k : String) : Text := (j.get k).asText
  { id := text "id", requestId := text "request_id", origin := text "origin"
    inputHash := text "input_hash", input := text "input", cleaned := text "cleaned"
    output := text "output", status := text "status", errorType := text "error_type"
    errorMessage := text "error_message", cleanPasses := (j.get "clean_passes").asInt
    duration := (j.get "duration").asInt
    createdAt := (Time.Stamp.read? (text "created_at")).getD .zero }

/-- A record with all its fields. -/
def Record.fullJson (r : Record) : Json :=
  Json.ofFields
    [("id", r.id), ("request_id", r.requestId), ("origin", r.origin), ("input_hash", r.inputHash),
      ("input", r.input), ("cleaned", r.cleaned), ("output", r.output), ("status", r.status),
      ("error_type", r.errorType), ("error_message", r.errorMessage),
      ("clean_passes", r.cleanPasses), ("duration", (r.duration : Int)),
      ("created_at", r.createdAt.utc.text), ("failed", r.failed)]

/-- Reads a query. -/
def Query.ofJson (j : Json) : Query :=
  let text (k : String) : Text := (j.get k).asText
  { startTime := Time.Instant.read? (text "start_time")
    endTime := Time.Instant.read? (text "end_time")
    ids := (j.get "ids").items.map Json.asText, status := text "status"
    errorType := text "error_type", origin := text "origin", inputHash := text "input_hash"
    limit := (j.get "limit").asInt, offset := (j.get "offset").asInt
    sortBy := text "sort_by", sortOrder := text "sort_order" }

/-- A query as JSON; a bound that is not set is `null`. -/
def Query.json (q : Query) : Json :=
  let time (t : Option Time.Instant) : Json := t.elim .null fun t => t.text
  Json.ofFields
    [("start_time", time q.startTime), ("end_time", time q.endTime), ("ids", q.ids),
      ("status", q.status), ("error_type", q.errorType), ("origin", q.origin),
      ("input_hash", q.inputHash), ("limit", q.limit), ("offset", q.offset),
      ("sort_by", q.sortBy), ("sort_order", q.sortOrder)]

end MathMarkup.History
