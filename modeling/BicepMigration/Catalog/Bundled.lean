import BicepMigration.Catalog.Lookup

/-!
# The bundled catalog

The mappings that are used where no catalog is named. A property is elided only where its literal equals the
default that is recorded here.
-/

namespace BicepMigration.Catalog

namespace Bundled

/-- Storage account. -/
def storageAccount : Mapping where
  resourceType := "Microsoft.Storage/storageAccounts"
  versions := .one ">=2021-04-01"
  module := "br:avm/storage:latest"
  description := some "Storage account"
  inputs :=
    [("name", "name"), ("location", "location"), ("tags", "tags"), ("kind", "kind"), ("sku.name", "skuName"),
      ("properties.accessTier", "accessTier"), ("properties.minimumTlsVersion", "minimumTlsVersion"),
      ("properties.supportsHttpsTrafficOnly", "supportsHttpsTrafficOnly"),
      ("properties.allowBlobPublicAccess", "allowBlobPublicAccess"),
      ("properties.allowSharedKeyAccess", "allowSharedKeyAccess"),
      ("properties.isHnsEnabled", "enableHierarchicalNamespace"), ("properties.networkAcls", "networkAcls")]
  outputs :=
    [("id", "id"), ("name", "name"), ("properties.primaryEndpoints.blob", "primaryBlobEndpoint")]
  defaults :=
    [("kind", .string "StorageV2"), ("skuName", .string "Standard_GRS"), ("accessTier", .string "Hot"),
      ("minimumTlsVersion", .string "TLS1_2"), ("supportsHttpsTrafficOnly", .bool true),
      ("allowBlobPublicAccess", .bool false), ("enableHierarchicalNamespace", .bool false),
      ("networkAcls.defaultAction", .string "Deny"), ("networkAcls.bypass", .string "AzureServices")]

/-- Key vault. -/
def keyVault : Mapping where
  resourceType := "Microsoft.KeyVault/vaults"
  versions := .one ">=2021-10-01"
  module := "br:avm/key-vault:latest"
  description := some "Key vault"
  inputs :=
    [("name", "name"), ("location", "location"), ("tags", "tags"), ("properties.sku.name", "sku"),
      ("properties.enableRbacAuthorization", "enableRbacAuthorization"),
      ("properties.enableSoftDelete", "enableSoftDelete"),
      ("properties.softDeleteRetentionInDays", "softDeleteRetentionInDays"),
      ("properties.enablePurgeProtection", "enablePurgeProtection"),
      ("properties.publicNetworkAccess", "publicNetworkAccess")]
  outputs :=
    [("id", "id"), ("name", "name"), ("properties.vaultUri", "uri")]
  defaults :=
    [("sku", .string "premium"), ("enableRbacAuthorization", .bool true), ("enableSoftDelete", .bool true),
      ("softDeleteRetentionInDays", .number (.integer 90)), ("enablePurgeProtection", .bool true)]

/-- Virtual network. -/
def virtualNetwork : Mapping where
  resourceType := "Microsoft.Network/virtualNetworks"
  versions := .one ">=2022-01-01"
  module := "br:avm/virtual-network:latest"
  description := some "Virtual network"
  inputs :=
    [("name", "name"), ("location", "location"), ("tags", "tags"),
      ("properties.addressSpace.addressPrefixes", "addressPrefixes"), ("properties.subnets", "subnets"),
      ("properties.dhcpOptions.dnsServers", "dnsServers")]
  outputs :=
    [("id", "id"), ("name", "name")]
  defaults :=
    [("dnsServers", .array [])]

/-- Log Analytics workspace. -/
def logWorkspace : Mapping where
  resourceType := "Microsoft.OperationalInsights/workspaces"
  versions := .one ">=2021-06-01"
  module := "br:avm/log-analytics-workspace:latest"
  description := some "Log Analytics workspace"
  inputs :=
    [("name", "name"), ("location", "location"), ("tags", "tags"), ("properties.sku.name", "skuName"),
      ("properties.retentionInDays", "dataRetention")]
  outputs :=
    [("id", "id"), ("name", "name"), ("properties.customerId", "logAnalyticsWorkspaceId")]
  defaults :=
    [("skuName", .string "PerGB2018"), ("dataRetention", .number (.integer 365))]

/-- App Service plan. -/
def servicePlan : Mapping where
  resourceType := "Microsoft.Web/serverfarms"
  versions := .one ">=2022-03-01"
  module := "br:avm/app-service-plan:latest"
  description := some "App Service plan"
  inputs :=
    [("name", "name"), ("location", "location"), ("tags", "tags"), ("kind", "kind"), ("sku", "sku"),
      ("properties.reserved", "reserved"), ("properties.zoneRedundant", "zoneRedundant")]
  outputs :=
    [("id", "id"), ("name", "name")]
  defaults :=
    [("kind", .string "app"), ("reserved", .bool false), ("zoneRedundant", .bool true)]

/-- The document of the bundled catalog. -/
def document : Document :=
  ⟨"1.0", [storageAccount, keyVault, virtualNetwork, logWorkspace, servicePlan]⟩

end Bundled

/-- The bundled catalog. Its entries are well formed. -/
def ModuleCatalog.bundled : ModuleCatalog :=
  match ModuleCatalog.ofDocument Bundled.document with
  | .ok catalog => catalog
  | .error _ => .empty

end BicepMigration.Catalog
