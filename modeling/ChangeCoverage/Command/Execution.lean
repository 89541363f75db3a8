import ChangeCoverage.Command.CaseReport
import ChangeCoverage.Command.Listing
import ChangeCoverage.Command.View

/-!
Carrying out requests.
-/

namespace ChangeCoverage

def Request.run (request : Request) (world : World) : Run Unit :=
  match request.command with
  | .listing revisions => Listing.run world request.directory revisions
  | .view revisions path format width =>
      View.run world request.directory revisions path format width
  | .cases revisions paths format =>
      CaseReport.run world request.directory revisions paths format

end ChangeCoverage
