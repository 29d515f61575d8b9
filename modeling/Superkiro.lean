import Superkiro.Billing.Activity
import Superkiro.Billing.Announcements
import Superkiro.Billing.Archiving
import Superkiro.Billing.BanNotes
import Superkiro.Billing.Budget
import Superkiro.Billing.Concurrency
import Superkiro.Billing.Coverage
import Superkiro.Billing.Crypto
import Superkiro.Billing.Debt
import Superkiro.Billing.Exports
import Superkiro.Billing.Extensions
import Superkiro.Billing.History
import Superkiro.Billing.Holds
import Superkiro.Billing.Idempotency
import Superkiro.Billing.Limits
import Superkiro.Billing.LockedSettings
import Superkiro.Billing.Once
import Superkiro.Billing.Orders
import Superkiro.Billing.PendingRecovery
import Superkiro.Billing.Reconcile
import Superkiro.Billing.SettledUsage
import Superkiro.Billing.Simulation
import Superkiro.Billing.TemplatePrompt
import Superkiro.Console.Rebase
import Superkiro.Deploy.Bundle
import Superkiro.Gateway.AdminLogin
import Superkiro.Gateway.Archive
import Superkiro.Gateway.Chain
import Superkiro.Gateway.EmptyAttempts
import Superkiro.Gateway.Estimate
import Superkiro.Gateway.Family
import Superkiro.Gateway.Inquiry
import Superkiro.Gateway.Invocations
import Superkiro.Gateway.KeySelection
import Superkiro.Gateway.Metering
import Superkiro.Gateway.RegistryEdits
import Superkiro.Gateway.Security
import Superkiro.Patch.Desktop
import Superkiro.Patch.Installation
import Superkiro.Patch.Jsonc
import Superkiro.Patch.Kept
import Superkiro.Patch.Rerender
import Superkiro.Stream.Calls
import Superkiro.Stream.Chunks
import Superkiro.Stream.Deltas
import Superkiro.Translate.Alternation
import Superkiro.Translate.Names
import Superkiro.Translate.PageTree
import Superkiro.Translate.ShrinkCache
import Superkiro.Update.Download
import Superkiro.Wire.Checksum
import Superkiro.Wire.Dates
import Superkiro.Wire.Recovery
