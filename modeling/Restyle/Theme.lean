import Restyle.Host.Basic
import Restyle.Palette.Basic
import Restyle.Settings

namespace Restyle.Theme

/-- The part of a theme that a palette is made of. A theme must have colours. -/
def accept (source : String) (data : Json) : Except Fault Json :=
  match data with
  | .object fields =>
    match Fields.get? fields "colors", Fields.get? fields "typography" with
    | some (.object colors), some (.object styles) =>
      .ok (.object [("colors", .object colors), ("typography", .object styles)])
    | some (.object colors), _ => .ok (.object [("colors", .object colors)])
    | _, _ => .error (.themeWithoutColors source)
  | _ => .error (.themeWithoutColors source)

/-- What an answer holds. An answer that reports a failure is refused. -/
def ofResponse (url : String) (response : Response) : Except Fault Json :=
  if 400 ≤ response.status && response.status < 600 then
    .error (.refused response.status response.reason url)
  else
    let source := response.body.toList
    match Json.read source with
    | .ok value => .ok value
    | .error fault => .error (.unreadableJson source fault)

variable {m : Type → Type} [Monad m] [Host m]

/-- The theme at a path or an address. -/
def load (source : String) : Job m Json := do
  let data ←
    if Settings.isAddress source then do
      let response ← Job.ofHost (Host.fetch source)
      Job.lift (ofResponse source response)
    else Job.readJson source
  Job.lift (accept source data)

end Restyle.Theme
