import CodeAtlas.File.Scan
import CodeAtlas.Pass.File
import CodeAtlas.Pass.Full
import CodeAtlas.Pass.Gather
import CodeAtlas.Proofs.Config.Expansion
import CodeAtlas.Proofs.Config.Merge
import CodeAtlas.Proofs.Embed.Budget
import CodeAtlas.Proofs.Embed.Call
import CodeAtlas.Proofs.Embed.Lazy
import CodeAtlas.Proofs.Embed.Prefix
import CodeAtlas.Proofs.File.Eligible
import CodeAtlas.Proofs.File.Excluded
import CodeAtlas.Proofs.File.Links
import CodeAtlas.Proofs.File.Reach
import CodeAtlas.Proofs.Pass.Accounts
import CodeAtlas.Proofs.Pass.Failure
import CodeAtlas.Proofs.Pass.FirstFailure
import CodeAtlas.Proofs.Pass.Incremental
import CodeAtlas.Proofs.Pass.Isolation
import CodeAtlas.Proofs.Pass.Leaves
import CodeAtlas.Proofs.Pass.Progress
import CodeAtlas.Proofs.Pass.Recovery
import CodeAtlas.Proofs.Pass.Schedules
import CodeAtlas.Proofs.Pass.Serial
import CodeAtlas.Proofs.Pass.SingleFile
import CodeAtlas.Proofs.Pass.Skipped
import CodeAtlas.Proofs.Search.Selection
import CodeAtlas.Proofs.Search.Shown
import CodeAtlas.Proofs.Service.Narrowed
import CodeAtlas.Proofs.Service.Status
import CodeAtlas.Proofs.Store.Faultless
import CodeAtlas.Proofs.Store.LastWrite
import CodeAtlas.Proofs.Store.Packing
import CodeAtlas.Proofs.Store.Pages
import CodeAtlas.Proofs.Store.Refinement
import CodeAtlas.Proofs.Store.Surfaced
import CodeAtlas.Proofs.Store.Table
import CodeAtlas.Proofs.Task.Turns
import CodeAtlas.Proofs.Text.Utf8
import CodeAtlas.Proofs.Unit.Distinct
import CodeAtlas.Proofs.Unit.Exact
import CodeAtlas.Proofs.Unit.Naming
import CodeAtlas.Proofs.Unit.Nesting
import CodeAtlas.Proofs.Unit.Preorder
import CodeAtlas.Proofs.Unit.Stable
import CodeAtlas.Search.Hit
import CodeAtlas.Service.App
import CodeAtlas.Task.Loop
import CodeAtlas.Task.Turns
import CodeAtlas.Unit.Extract
import CodeAtlas.Value.Json
